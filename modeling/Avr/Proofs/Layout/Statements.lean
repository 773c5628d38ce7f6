import Mathlib.Data.List.Basic
import Avr.Layout.Data
import Avr.Proofs.Layout.Program
import Avr.Proofs.Layout.Tables

/-!
# Statements of the data section

* `DataItem` : what a line of the data section stands for behind its label; `emitted` : its bytes, `bindings` : the name
  that it binds;
* `Unescapes` : the bytes of a text between quotes; `unescaped_eq_ok_iff` : those that are read;
* `Reads` : the tokens behind a label stand for an item, under a table of names;
* `values_eq_ok_iff`, `integers_of_ok`, `exists_integers` : the arguments of directives;
* `reads_of_directive` : a directive that succeeds stands for an item, and its name can be bound.
-/

namespace Avr

/-! ## What lines stand for -/

/-- What a line of the data section stands for behind its label. -/
inductive DataItem
  | bytes (values : List Int)
  | words (values : List Int)
  /-- Texts, each of them followed by a zero byte if `ended`. -/
  | texts (ended : Bool) (bodies : List (List Byte))
  | space (count : Nat) (fill : Int)
  | constant (name : String) (value : Int)
  | registerAlias (name : String) (register : Nat)
  | nothing

def byteOf (v : Int) : Byte := BitVec.ofNat 8 (v % 256).toNat

/-- A number modulo 65536: its low byte, then its high byte. -/
def wordBytes (v : Int) : List Byte :=
  let n := (v % 65536).toNat
  [BitVec.ofNat 8 (n % 256), BitVec.ofNat 8 (n / 256)]

namespace DataItem

def emitted : DataItem → List Byte
  | bytes values => values.map byteOf
  | words values => values.flatMap wordBytes
  | texts ended bodies => bodies.flatMap fun body => if ended then body ++ [0] else body
  | space count fill => List.replicate count (byteOf fill)
  | constant _ _ | registerAlias _ _ | nothing => []

def bindings : DataItem → List (String × Binding)
  | constant name value => [(name, .constant value)]
  | registerAlias name register => [(name, .registerAlias register)]
  | _ => []

end DataItem

/-- The bytes of a text between quotes: ASCII characters stand for themselves, escapes for one byte each. -/
inductive Unescapes : List Char → List Byte → Prop
  | nil : Unescapes [] []
  | plain {c : Char} {cs : List Char} {bs : List Byte} (hc : c ≠ '\\') (hascii : c.toNat < 128) (h : Unescapes cs bs) :
      Unescapes (c :: cs) (BitVec.ofNat 8 c.toNat :: bs)
  | escape {c : Char} {cs : List Char} {b : Byte} {bs : List Byte} (hc : unescape? c = some b) (h : Unescapes cs bs) :
      Unescapes ('\\' :: c :: cs) (b :: bs)

/-- The arguments of a directive, at least one, with names and expressions replaced by what they come to. -/
def Arguments (symbols : Symbols) (args ts : List Token) : Prop :=
  ts ≠ [] ∧ ∃ resolved, resolveArgs symbols .value args = .ok resolved ∧ splitArgs resolved = .ok ts

def Integers (symbols : Symbols) (args : List Token) (values : List Int) : Prop :=
  ∃ ts, Arguments symbols args ts ∧ List.Forall₂ (fun t v => t.lexeme = .int v) ts values

def Texts (symbols : Symbols) (args : List Token) (bodies : List (List Byte)) : Prop :=
  ∃ ts, Arguments symbols args ts ∧
    List.Forall₂ (fun t bs => ∃ body, t.lexeme = .str body ∧ Unescapes body.toList bs) ts bodies

/-- Tokens stand for an item, names taken from a table. -/
inductive Reads (symbols : Symbols) : List Token → DataItem → Prop
  | nothing : Reads symbols [] .nothing
  | bytes {head : Token} {args : List Token} {values : List Int} (hdir : head.lexeme = .dir .byte)
      (hargs : Integers symbols args values) : Reads symbols (head :: args) (.bytes values)
  | words {head : Token} {args : List Token} {values : List Int} (hdir : head.lexeme = .dir .word)
      (hargs : Integers symbols args values) : Reads symbols (head :: args) (.words values)
  | ended {head : Token} {args : List Token} {bodies : List (List Byte)}
      (hdir : head.lexeme = .dir .string ∨ head.lexeme = .dir .asciz) (hargs : Texts symbols args bodies) :
      Reads symbols (head :: args) (.texts true bodies)
  | texts {head : Token} {args : List Token} {bodies : List (List Byte)} (hdir : head.lexeme = .dir .ascii)
      (hargs : Texts symbols args bodies) : Reads symbols (head :: args) (.texts false bodies)
  | space {head : Token} {args : List Token} {count : Nat} (hdir : head.lexeme = .dir .space)
      (hargs : Integers symbols args [(count : Int)]) : Reads symbols (head :: args) (.space count 0)
  | filled {head : Token} {args : List Token} {count : Nat} {fill : Int} (hdir : head.lexeme = .dir .space)
      (hargs : Integers symbols args [(count : Int), fill]) : Reads symbols (head :: args) (.space count fill)
  | constant {head nameToken comma value t : Token} {more : List Token} {name : String} {v : Int}
      (hdir : head.lexeme = .dir .equ ∨ head.lexeme = .dir .assign) (hname : nameToken.lexeme = .ref name)
      (hcomma : comma.lexeme = .comma) (hvalue : resolveArgs symbols .value (value :: more) = .ok [t])
      (hv : t.lexeme = .int v) : Reads symbols (head :: nameToken :: comma :: value :: more) (.constant name v)
  | registerAlias {head nameToken separator reg : Token} {name : String} {r : Nat}
      (hdir : head.lexeme = .dir .registerAlias) (hname : nameToken.lexeme = .ref name)
      (hseparator : separator.raw = "=" ∨ separator.kind = .comma)
      (hreg : reg.lexeme = .reg r ∨ ∃ other, reg.lexeme = .ref other ∧ symbols.registerAlias? other = some r) :
      Reads symbols [head, nameToken, separator, reg] (.registerAlias name r)

theorem Reads.exists_dir {symbols : Symbols} {head : Token} {args : List Token} {item : DataItem}
    (h : Reads symbols (head :: args) item) : ∃ dir, head.lexeme = .dir dir := by
  cases h with
  | ended hdir | constant hdir => exact hdir.elim (fun h => ⟨_, h⟩) fun h => ⟨_, h⟩
  | bytes hdir | words hdir | texts hdir | space hdir | filled hdir | registerAlias hdir => exact ⟨_, hdir⟩

/-! ## Numbers and texts -/

theorem ofInt_eq_byteOf (v : Int) : BitVec.ofInt 8 v = byteOf v := by
  apply BitVec.eq_of_toNat_eq
  rw [byteOf, BitVec.toNat_ofInt, BitVec.toNat_ofNat]
  omega

theorem bytes_eq_wordBytes (v : Int) :
    [lowByte (BitVec.ofInt 16 v), highByte (BitVec.ofInt 16 v)] = wordBytes v := by
  have hlow : lowByte (BitVec.ofInt 16 v) = BitVec.ofNat 8 ((v % 65536).toNat % 256) := by
    apply BitVec.eq_of_toNat_eq
    rw [toNat_lowByte, BitVec.toNat_ofInt, BitVec.toNat_ofNat]
    omega
  have hhigh : highByte (BitVec.ofInt 16 v) = BitVec.ofNat 8 ((v % 65536).toNat / 256) := by
    apply BitVec.eq_of_toNat_eq
    rw [toNat_highByte, BitVec.toNat_ofInt, BitVec.toNat_ofNat]
    omega
  rw [hlow, hhigh]
  rfl

/-- The bytes that are read are those of the text. By induction on the text, an escape at a time. -/
theorem unescaped_eq_ok_iff {cs : List Char} {bs : List Byte} : unescaped cs = .ok bs ↔ Unescapes cs bs := by
  induction cs using unescaped.induct generalizing bs with
  | case1 =>
    rw [unescaped]
    constructor
    · intro h
      cases h
      exact .nil
    · intro h
      cases h
      rfl
  | case2 =>
    refine ⟨nofun, fun h => ?_⟩
    cases h with
    | plain hc => exact absurd rfl hc
  | case3 c cs b hb ih =>
    rw [unescaped, hb, map_eq_ok]
    constructor
    · rintro ⟨bs, hbs, rfl⟩
      exact .escape hb (ih.1 hbs)
    · intro h
      cases h with
      | plain hc => exact absurd rfl hc
      | escape hb' h =>
        rw [hb, Option.some.injEq] at hb'
        exact ⟨_, ih.2 h, by rw [hb']⟩
  | case4 c cs hnone =>
    rw [unescaped, hnone]
    refine ⟨nofun, fun h => ?_⟩
    cases h with
    | plain hc => exact absurd rfl hc
    | escape hb h =>
      rw [hnone] at hb
      cases hb
  | case5 c cs hc hascii ih =>
    rw [unescaped.eq_4 _ _ hc, if_pos hascii, map_eq_ok]
    constructor
    · rintro ⟨bs, hbs, rfl⟩
      exact .plain hc hascii (ih.1 hbs)
    · intro h
      cases h with
      | plain _ _ h => exact ⟨_, ih.2 h, rfl⟩
      | escape => exact absurd rfl hc
  | case6 c cs hc hother =>
    rw [unescaped.eq_4 _ _ hc, if_neg hother]
    refine ⟨nofun, fun h => ?_⟩
    cases h with
    | plain _ hascii => exact absurd hascii hother
    | escape => exact absurd rfl hc

/-! ## Arguments -/

theorem values_eq_ok_iff {symbols : Symbols} {dir : Directive} {head : Token} {args ts : List Token} :
    values symbols dir head args = .ok ts ↔ Arguments symbols args ts := by
  unfold values Arguments
  rw [bind_eq_ok]
  constructor
  · rintro ⟨resolved, hresolved, h⟩
    split at h
    · cases h
    · cases h
    · next found hnonempty hsplit =>
      rw [pure_eq_ok] at h
      subst h
      exact ⟨hnonempty, resolved, hresolved, hsplit⟩
  · rintro ⟨hne, resolved, hresolved, hsplit⟩
    refine ⟨resolved, hresolved, ?_⟩
    rw [hsplit]
    cases ts with
    | nil => exact absurd rfl hne
    | cons t ts => rfl

theorem integer_eq_ok_iff {t : Token} {v : Int} : integer t = .ok v ↔ t.lexeme = .int v := by
  unfold integer Token.int?
  cases t.lexeme with
  | int w => simp
  | _ => simp [Token.fail]

theorem kind_eq_ref_iff {t : Token} : t.kind = .ref ↔ ∃ name, t.lexeme = .ref name := by
  obtain ⟨lexeme, raw, loc⟩ := t
  unfold Token.kind
  cases lexeme with
  | select half => cases half <;> simp [Lexeme.kind]
  | ptr p mode => cases mode <;> simp [Lexeme.kind]
  | _ => simp [Lexeme.kind]

theorem integers_of_ok {symbols : Symbols} {dir : Directive} {head : Token} {args : List Token}
    {ints : List (Loc × Int)} (h : integers symbols dir head args = .ok ints) :
    Integers symbols args (ints.map Prod.snd) := by
  obtain ⟨ts, hts, h⟩ := bind_eq_ok.1 h
  refine ⟨ts, values_eq_ok_iff.1 hts, List.forall₂_map_right_iff.2 ?_⟩
  refine (mapM_eq_ok_iff.1 h).imp fun t p hp => ?_
  obtain ⟨v, hv, hp⟩ := bind_eq_ok.1 hp
  cases hp
  exact integer_eq_ok_iff.1 hv

theorem exists_integers {symbols : Symbols} (dir : Directive) (head : Token) {args : List Token} {values : List Int}
    (h : Integers symbols args values) :
    ∃ ints, integers symbols dir head args = .ok ints ∧ ints.map Prod.snd = values := by
  obtain ⟨ts, hts, hvalues⟩ := h
  obtain ⟨ints, hints, hsnd⟩ := forall₂_split (S := fun (p : Loc × Int) v => p.2 = v)
    (R := fun t p => (do return (t.loc, ← integer t) : Except Diagnostic (Loc × Int)) = .ok p)
    (fun t v hv => ⟨(t.loc, v), bind_eq_ok.2 ⟨v, integer_eq_ok_iff.2 hv, rfl⟩, rfl⟩) hvalues
  refine ⟨ints, bind_eq_ok.2 ⟨ts, values_eq_ok_iff.2 hts, mapM_eq_ok_iff.2 hints⟩, ?_⟩
  rwa [← List.forall₂_map_left_iff, List.forall₂_eq_eq_eq] at hsnd

/-! ## Directives that succeed -/

namespace DataState

variable {s t : DataState} {dir : Directive} {head : Token} {args : List Token}

theorem pushText_ok {ended : Bool} {u : Token} (h : pushText ended s u = .ok t) :
    ∃ body bs, u.lexeme = .str body ∧ Unescapes body.toList bs := by
  unfold pushText at h
  split at h
  · next body hbody =>
    split at h
    · next bs hbs => exact ⟨body, bs, hbody, unescaped_eq_ok_iff.1 hbs⟩
    · cases h
  · cases h

theorem foldlM_pushText_ok {ended : Bool} {ts : List Token} (h : ts.foldlM (pushText ended) s = .ok t) :
    ∃ bodies, List.Forall₂ (fun u bs => ∃ body, u.lexeme = .str body ∧ Unescapes body.toList bs) ts bodies := by
  induction ts generalizing s with
  | nil => exact ⟨[], .nil⟩
  | cons u ts ih =>
    obtain ⟨s', hu, h⟩ := foldlM_cons_eq_ok.1 h
    obtain ⟨body, bs, hbody, hbs⟩ := pushText_ok hu
    obtain ⟨bodies, hbodies⟩ := ih h
    exact ⟨bs :: bodies, .cons ⟨body, hbody, hbs⟩ hbodies⟩

theorem define_ok {name : Token} {n : String} (hname : name.lexeme = .ref n) {b : Binding}
    (h : s.define name b = .ok t) : s.symbols.Admits n b := by
  unfold define at h
  rw [Token.text, hname] at h
  split at h
  · next symbols hsymbols => exact (Symbols.define_eq_ok_iff.1 hsymbols).1
  · cases h

theorem reads_of_space {ints : List (Loc × Int)} (hdir : head.lexeme = .dir .space)
    (hargs : Integers s.symbols args (ints.map Prod.snd)) (h : s.space head ints = .ok t) :
    ∃ count fill, Reads s.symbols (head :: args) (.space count fill) := by
  unfold space at h
  dsimp only at h
  split at h
  · cases h
  · next loc count =>
    split at h
    · cases h
    · next hcount =>
      obtain ⟨n, rfl⟩ := Int.eq_ofNat_of_zero_le (Int.not_lt.1 hcount)
      exact ⟨n, 0, .space hdir hargs⟩
  · next loc count loc' fill =>
    split at h
    · cases h
    · next hcount =>
      obtain ⟨n, rfl⟩ := Int.eq_ofNat_of_zero_le (Int.not_lt.1 hcount)
      exact ⟨n, fill, .filled hdir hargs⟩
  · cases h

theorem reads_of_constant (hdir : head.lexeme = .dir .equ ∨ head.lexeme = .dir .assign)
    (h : s.constant dir head args = .ok t) :
    ∃ name v, Reads s.symbols (head :: args) (.constant name v) ∧ s.symbols.Admits name (.constant v) := by
  unfold constant at h
  split at h
  · next name raw loc value more =>
    dsimp only at h
    split at h
    · cases h
    · next hkind =>
      obtain ⟨n, hname⟩ := kind_eq_ref_iff.1 (not_not.1 hkind)
      obtain ⟨resolved, hvalue, h⟩ := bind_eq_ok.1 h
      split at h
      · cases h
      · next u =>
        obtain ⟨v, hv, h⟩ := bind_eq_ok.1 h
        exact ⟨n, v, .constant hdir hname rfl hvalue (integer_eq_ok_iff.1 hv), define_ok hname h⟩
      · cases h
  · cases h
  · cases h

theorem register_eq_ok_iff {u : Token} {r : Nat} : s.register u = .ok r ↔
    u.lexeme = .reg r ∨ ∃ other, u.lexeme = .ref other ∧ s.symbols.registerAlias? other = some r := by
  unfold register
  split
  · next n hn => simp [hn]
  · next name hname =>
    rw [hname]
    split
    · next n hn => simp [hn]
    · next hnone => simp [hnone, Token.fail]
  · next hreg href =>
    constructor
    · nofun
    · rintro (h | ⟨other, h, -⟩)
      · exact absurd h (hreg r)
      · exact absurd h (href other)

theorem reads_of_registerAlias (hdir : head.lexeme = .dir .registerAlias) (h : s.registerAlias head args = .ok t) :
    ∃ name r, Reads s.symbols (head :: args) (.registerAlias name r) ∧
      s.symbols.Admits name (.registerAlias r) := by
  unfold registerAlias at h
  split at h
  · cases h
  · split at h
    · next name separator reg hargs =>
      split at h
      · next hseparator =>
        dsimp only at h
        split at h
        · cases h
        · next hkind =>
          obtain ⟨n, hname⟩ := kind_eq_ref_iff.1 (not_not.1 hkind)
          obtain ⟨r, hr, h⟩ := bind_eq_ok.1 h
          rw [Bool.or_eq_true, beq_iff_eq, beq_iff_eq] at hseparator
          rw [hargs]
          exact ⟨n, r, .registerAlias hdir hname hseparator (register_eq_ok_iff.1 hr), define_ok hname h⟩
      · cases h
    · cases h

/-- The names that an item binds can be bound. -/
theorem reads_of_directive (hdir : head.lexeme = .dir dir) (h : s.directive dir head args = .ok t) :
    ∃ item, Reads s.symbols (head :: args) item ∧ ∀ d ∈ item.bindings, s.symbols.Admits d.1 d.2 := by
  unfold directive at h
  cases dir with
  | byte =>
    obtain ⟨ints, hints, -⟩ := bind_eq_ok.1 h
    exact ⟨_, .bytes hdir (integers_of_ok hints), nofun⟩
  | word =>
    obtain ⟨ints, hints, -⟩ := bind_eq_ok.1 h
    exact ⟨_, .words hdir (integers_of_ok hints), nofun⟩
  | string =>
    obtain ⟨ts, hts, h⟩ := bind_eq_ok.1 h
    obtain ⟨bodies, hbodies⟩ := foldlM_pushText_ok h
    exact ⟨_, .ended (.inl hdir) ⟨ts, values_eq_ok_iff.1 hts, hbodies⟩, nofun⟩
  | asciz =>
    obtain ⟨ts, hts, h⟩ := bind_eq_ok.1 h
    obtain ⟨bodies, hbodies⟩ := foldlM_pushText_ok h
    exact ⟨_, .ended (.inr hdir) ⟨ts, values_eq_ok_iff.1 hts, hbodies⟩, nofun⟩
  | ascii =>
    obtain ⟨ts, hts, h⟩ := bind_eq_ok.1 h
    obtain ⟨bodies, hbodies⟩ := foldlM_pushText_ok h
    exact ⟨_, .texts hdir ⟨ts, values_eq_ok_iff.1 hts, hbodies⟩, nofun⟩
  | space =>
    obtain ⟨ints, hints, h⟩ := bind_eq_ok.1 h
    obtain ⟨count, fill, hreads⟩ := reads_of_space hdir (integers_of_ok hints) h
    exact ⟨_, hreads, nofun⟩
  | equ =>
    obtain ⟨name, v, hreads, hadmits⟩ := reads_of_constant (.inl hdir) h
    exact ⟨_, hreads, by simpa [DataItem.bindings] using hadmits⟩
  | assign =>
    obtain ⟨name, v, hreads, hadmits⟩ := reads_of_constant (.inr hdir) h
    exact ⟨_, hreads, by simpa [DataItem.bindings] using hadmits⟩
  | registerAlias =>
    obtain ⟨name, r, hreads, hadmits⟩ := reads_of_registerAlias hdir h
    exact ⟨_, hreads, by simpa [DataItem.bindings] using hadmits⟩
  | header | finish | text | data | global => cases h

end DataState

end Avr
