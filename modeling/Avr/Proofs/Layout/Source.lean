import Avr.Proofs.Layout.Shape
import Avr.Proofs.Layout.Written
import Avr.Proofs.Token.Source

/-!
# Sources of bytes and instructions, laid out

* `sourceLines` : a data section of rows of bytes, then a text section whose entry stands between two lists of
  instructions; `exists_parts` : the parts of its lines;
* `checkSections_parts`, `checkMnemonics_lines` : it passes the checks of its structure;
* `add_code`, `foldlM_add_code` : what lines of instructions add; `foldlM_add_codes` : its text section;
* `add_bytes`, `foldlM_add_bytes` : its data section;
* `layout_source` : both memories.
-/

namespace Avr

open SourceLine

def codeLines (before after : List Instruction) : List SourceLine := before.map code ++ entryLabel :: after.map code

/-- The lines of a source with rows of bytes and with instructions in front of the entry and from there on. -/
def sourceLines (rows : List (List Byte)) (before after : List Instruction) : List SourceLine :=
  (header .data :: rows.map bytes) ++ header .text :: entryName :: (codeLines before after ++ [finish])

theorem exists_parts {rows : List (List Byte)} {before after : List Instruction} {lines : List Line}
    (h : List.Forall₂ Says (sourceLines rows before after) lines) :
    ∃ first byteLines second entry codes last,
      lines = (first :: byteLines) ++ second :: entry :: (codes ++ [last]) ∧ (header .data).Says first ∧
        List.Forall₂ (fun row line => (bytes row).Says line) rows byteLines ∧ (header .text).Says second ∧
        entryName.Says entry ∧ List.Forall₂ Says (codeLines before after) codes ∧ finish.Says last := by
  obtain ⟨front, back, rfl, hfront, hback⟩ := forall₂_append_left h
  cases hfront with
  | cons hfirst hrows =>
    cases hback with
    | cons hsecond hback =>
      cases hback with
      | cons hentry hback =>
        obtain ⟨codes, ends, rfl, hcodes, hends⟩ := forall₂_append_left hback
        cases hends with
        | cons hlast hnil =>
          cases hnil
          exact ⟨_, _, _, _, codes, _, rfl, hfirst, List.forall₂_map_left_iff.1 hrows, hsecond, hentry, hcodes, hlast⟩

/-! ## Structure -/

/-- A line that opens no section. -/
def Line.Plain (line : Line) : Prop := line.tokens.head?.any (·.isDir .header) = false

theorem SourceLine.Says.plain {l : SourceLine} {line : Line} (h : l.Says line) (hl : ∀ d, l ≠ header d) : line.Plain := by
  obtain ⟨t, args, htokens, ht⟩ : ∃ t args, line.tokens = t :: args ∧ t.lexeme ≠ .dir .header := by
    cases l with
    | header d => exact absurd rfl (hl d)
    | bytes row | code i =>
      obtain ⟨t, args, htokens, ht, -⟩ := h
      exact ⟨t, args, htokens, by rw [ht]; nofun⟩
    | entryName =>
      obtain ⟨t, u, htokens, ht, -⟩ := h
      exact ⟨t, [u], htokens, by rw [ht]; nofun⟩
    | entryLabel | finish =>
      obtain ⟨t, htokens, ht⟩ := h
      exact ⟨t, [], htokens, by rw [ht]; nofun⟩
  rw [Line.Plain, htokens, List.head?_cons, Option.any_some, Token.isDir]
  exact beq_false_of_ne ht

theorem plain_of_forall₂ {ls : List SourceLine} (hls : ∀ l ∈ ls, ∀ d, l ≠ header d) {lines : List Line}
    (h : List.Forall₂ Says ls lines) : ∀ line ∈ lines, line.Plain :=
  forall_of_forall₂_right (fun l line (hl : (∀ d, l ≠ header d) ∧ l.Says line) => Says.plain hl.2 hl.1)
    ((List.forall₂_and_left _ _).2 ⟨hls, h⟩)

theorem foldlM_note_plain {lines : List Line} (h : ∀ line ∈ lines, line.Plain) (headers : Headers) (k : Nat) :
    (lines.zipIdx k).foldlM (fun h p => Headers.note h p.1 p.2) headers = .ok headers := by
  induction lines generalizing k with
  | nil => rfl
  | cons line lines ih =>
    rw [List.forall_mem_cons] at h
    rw [List.zipIdx_cons]
    refine foldlM_cons_eq_ok.2 ⟨headers, ?_, ih h.2 (k + 1)⟩
    have hplain : line.tokens.head?.any (·.isDir .header) = false := h.1
    unfold Headers.note
    dsimp only
    rw [hplain]
    rfl

theorem SourceLine.Says.isHeader_eq {d : Directive} {line : Line} (h : (header d).Says line) (e : Directive) :
    line.isHeader e = (d == e) := by
  obtain ⟨t, u, htokens, ht, hu⟩ := h
  unfold Line.isHeader
  rw [htokens]
  dsimp only
  rw [Token.isDir, Token.isDir, ht, hu, beq_self_eq_true, Bool.true_and]
  cases d <;> cases e <;> rfl

theorem opens_section {d : Directive} {line : Line} (h : (header d).Says line) :
    line.tokens.head?.any (·.isDir .header) = true := by
  obtain ⟨t, u, htokens, ht, -⟩ := h
  rw [htokens, List.head?_cons, Option.any_some, Token.isDir, ht, beq_self_eq_true]

/-- The headers are found where they stand. -/
theorem checkSections_parts {first second last : Line} {front back : List Line} (hfirst : (header .data).Says first)
    (hfront : ∀ line ∈ front, line.Plain) (hsecond : (header .text).Says second) (hback : ∀ line ∈ back, line.Plain)
    (hlast : finish.Says last) :
    checkSections ((first :: front) ++ second :: (back ++ [last])) = .ok ⟨some 0, front.length + 1⟩ := by
  have hlone : last.isLoneDir .finish = true := by
    obtain ⟨t, htokens, ht⟩ := hlast
    unfold Line.isLoneDir
    rw [htokens]
    dsimp only
    rw [Token.isDir, ht, beq_self_eq_true]
  have hplain : ∀ line ∈ back ++ [last], line.Plain := by
    intro line hline
    rcases List.mem_append.1 hline with hline | hline
    · exact hback line hline
    · rw [List.mem_singleton.1 hline]
      exact Says.plain hlast nofun
  have hdata := Says.isHeader_eq hfirst
  have htext := Says.isHeader_eq hsecond
  have hnoteFirst : Headers.note {} first 0 = .ok ⟨some 0, none⟩ := by
    unfold Headers.note
    dsimp only
    rw [opens_section hfirst, hdata]
    rfl
  have hnoteSecond : Headers.note ⟨some 0, none⟩ second (front.length + 1) = .ok ⟨some 0, some (front.length + 1)⟩ := by
    unfold Headers.note
    dsimp only
    rw [opens_section hsecond, htext, htext]
    rfl
  have hheaders : (((first :: front) ++ second :: (back ++ [last])).zipIdx).foldlM
      (fun h p => Headers.note h p.1 p.2) {} = .ok ⟨some 0, some (front.length + 1)⟩ := by
    rw [List.zipIdx_append, List.foldlM_append, List.zipIdx_cons, List.zipIdx_cons]
    refine bind_eq_ok.2 ⟨⟨some 0, none⟩, foldlM_cons_eq_ok.2 ⟨_, hnoteFirst, foldlM_note_plain hfront _ _⟩, ?_⟩
    rw [List.length_cons, Nat.zero_add]
    exact foldlM_cons_eq_ok.2 ⟨_, hnoteSecond, foldlM_note_plain hplain _ _⟩
  have hends : ((first :: front) ++ second :: (back ++ [last])).getLast? = some last := by
    rw [← List.cons_append, ← List.append_assoc, List.getLast?_append, List.getLast?_singleton]
    rfl
  refine checkSections_eq_ok_iff.2 ⟨first, last, _, rfl, hends, ?_, hlone, hheaders, rfl, rfl, rfl⟩
  rw [hdata]
  rfl

theorem SourceLine.Says.known {l : SourceLine} {line : Line} (h : l.Says line) :
    ∀ t ∈ line.tokens, t.isUnknownMnemonic = false := by
  have hknown : ∀ t : Token, (∀ name, t.lexeme = .inst name → (Mnemonic.ofName? name).isSome = true) →
      t.isUnknownMnemonic = false := by
    intro t ht
    unfold Token.isUnknownMnemonic
    split
    · next name hname => rw [← Option.not_isSome, ht name hname, Bool.not_true]
    · rfl
  have hother : ∀ {t : Token} {x : Lexeme}, t.lexeme = x → (∀ name, x ≠ .inst name) →
      t.isUnknownMnemonic = false := by
    rintro t x rfl hx
    exact hknown t fun name hname => absurd hname (hx name)
  cases l with
  | header d =>
    obtain ⟨t, u, htokens, ht, hu⟩ := h
    rw [htokens]
    simp [hother ht nofun, hother hu nofun]
  | entryName =>
    obtain ⟨t, u, htokens, ht, hu⟩ := h
    rw [htokens]
    simp [hother ht nofun, hother hu nofun]
  | entryLabel | finish =>
    obtain ⟨t, htokens, ht⟩ := h
    rw [htokens]
    simp [hother ht nofun]
  | bytes row =>
    obtain ⟨t, args, htokens, ht, hargs⟩ := h
    rw [htokens, List.forall_mem_cons]
    exact ⟨hother ht nofun, hargs.forall_mem (fun b _ u hu => hother hu nofun) fun u hu => hother hu nofun⟩
  | code i =>
    obtain ⟨t, args, htokens, ht, hargs⟩ := h
    rw [htokens, List.forall_mem_cons]
    refine ⟨hknown t fun name hname => ?_, hargs.forall_mem (fun op _ u hu => ?_) fun u hu => hother hu nofun⟩
    · obtain rfl := Lexeme.inst.inj (ht.symm.trans hname)
      rw [(name_classes i.mnemonic).2.2.2.2]
      rfl
    · exact hother hu.1 (by cases op <;> nofun)

theorem checkMnemonics_lines {ls : List SourceLine} {lines : List Line} (h : List.Forall₂ Says ls lines) :
    checkMnemonics lines = .ok () := by
  have hnone : (lines.flatMap Line.tokens).find? Token.isUnknownMnemonic = none := by
    rw [List.find?_eq_none]
    intro t ht
    obtain ⟨line, hline, ht⟩ := List.mem_flatMap.1 ht
    rw [forall_of_forall₂_right (fun _ _ hsays => Says.known hsays) h line hline t ht]
    exact Bool.false_ne_true
  unfold checkMnemonics
  rw [hnone]

/-! ## Program memory -/

theorem bindLabel_of_ne {t : Token} (ht : ∀ name, t.lexeme ≠ .label name) (args : List Token) (s : Symbols)
    (index : Nat) : bindLabel (t :: args) s index = .ok (t :: args, s) := by
  unfold bindLabel
  split
  · next name raw loc rest heq => exact absurd (congrArg Token.lexeme (List.cons.inj heq).1) (ht name)
  · rfl

theorem Instruction.StatedBy.length_block {i : Instruction} {st : Statement} (h : i.StatedBy st) :
    st.block.length = i.slots.length := (Instruction.length_slots h.1.symm).symm

namespace ProgramState

/-- From the first state to the second the slots of statements are added and nothing else but a breakpoint. -/
structure States (s : ProgramState) (is : List Instruction) (t : ProgramState) : Prop where
  symbols : t.symbols = s.symbols
  globals : t.globals = s.globals
  slots : ∃ sts, List.Forall₂ Instruction.StatedBy is sts ∧
    t.slots.toList = s.slots.toList ++ sts.flatMap Statement.block

theorem length_blocks {is : List Instruction} {sts : List Statement} (h : List.Forall₂ Instruction.StatedBy is sts) :
    (sts.flatMap Statement.block).length = (is.flatMap Instruction.slots).length := by
  induction h with
  | nil => rfl
  | cons hhead _ ih => rw [List.flatMap_cons, List.flatMap_cons, List.length_append, List.length_append, ih,
      hhead.length_block]

theorem States.size {s t : ProgramState} {is : List Instruction} (h : s.States is t) :
    t.slots.size = s.slots.size + (is.flatMap Instruction.slots).length := by
  obtain ⟨sts, hsts, hslots⟩ := h.slots
  rw [← Array.length_toList, hslots, List.length_append, Array.length_toList, length_blocks hsts]

theorem add_code {i : Instruction} {line : Line} (hline : (code i).Says line) (wanted : Option Nat)
    {s : ProgramState} (hroom : s.slots.size + i.slots.length ≤ flashSize) :
    ∃ t, add wanted s line = .ok t ∧ s.States [i] t := by
  obtain ⟨n, tokens⟩ := line
  obtain ⟨u, args, rfl, hu, hargs⟩ := hline
  have hstated : i.StatedBy ⟨i.mnemonic, u.loc, args, n⟩ := ⟨rfl, hargs⟩
  have hbind := bindLabel_of_ne (t := u) (by rw [hu]; exact fun _ => nofun) args s.symbols s.slots.size
  have hpush := toList_push s.slots ⟨i.mnemonic, u.loc, args, n⟩
  have hfits : ¬ flashSize < (push s.slots ⟨i.mnemonic, u.loc, args, n⟩).size := by
    rw [← Array.length_toList, hpush, List.length_append, Array.length_toList, hstated.length_block]
    exact Nat.not_lt.2 hroom
  refine ⟨{ s with
    slots := push s.slots ⟨i.mnemonic, u.loc, args, n⟩
    breakpoint := s.breakpointAt wanted n }, bind_eq_ok.2 ⟨_, hbind, ?_⟩, rfl, rfl, [_], .cons hstated .nil, ?_⟩
  · unfold addTokens
    dsimp only
    rw [hu]
    dsimp only
    rw [(name_classes i.mnemonic).2.2.2.2]
    exact if_neg hfits
  · rw [List.flatMap_singleton, hpush]

theorem foldlM_add_code {is : List Instruction} {lines : List Line}
    (h : List.Forall₂ (fun i line => (code i).Says line) is lines) (wanted : Option Nat) {s : ProgramState}
    (hroom : s.slots.size + (is.flatMap Instruction.slots).length ≤ flashSize) :
    ∃ t, lines.foldlM (add wanted) s = .ok t ∧ s.States is t := by
  induction h generalizing s with
  | nil => exact ⟨s, rfl, rfl, rfl, [], .nil, by simp⟩
  | @cons i line is lines hline _ ih =>
    rw [List.flatMap_cons, List.length_append, ← Nat.add_assoc] at hroom
    obtain ⟨t, ht, hst⟩ := add_code hline wanted (Nat.le_trans (Nat.le_add_right _ _) hroom)
    have hsize := hst.size
    rw [List.flatMap_singleton] at hsize
    obtain ⟨u, hu, htu⟩ := ih (s := t) (by omega)
    obtain ⟨sts, hsts, hslots⟩ := hst.slots
    obtain ⟨sts', hsts', hslots'⟩ := htu.slots
    refine ⟨u, foldlM_cons_eq_ok.2 ⟨t, ht, hu⟩, htu.symbols.trans hst.symbols, htu.globals.trans hst.globals,
      sts ++ sts', List.rel_append hsts hsts', ?_⟩
    rw [hslots', hslots, List.flatMap_append, List.append_assoc]

theorem add_entryLabel {line : Line} (hline : entryLabel.Says line) (wanted : Option Nat) {s : ProgramState}
    (hfree : s.symbols.tableOf? "main" = none) :
    add wanted s line = .ok { s with symbols := s.symbols.bind "main" (.label s.slots.size) } := by
  obtain ⟨n, tokens⟩ := line
  obtain ⟨⟨lexeme, raw, loc⟩, rfl, rfl⟩ := hline
  have hdefine : s.symbols.define "main" (.label s.slots.size) = .ok (s.symbols.bind "main" (.label s.slots.size)) := by
    unfold Symbols.define
    rw [hfree]
  refine bind_eq_ok.2 ⟨([], s.symbols.bind "main" (.label s.slots.size)), ?_, rfl⟩
  unfold bindLabel
  dsimp only
  rw [hdefine]

end ProgramState

def mainSymbols (entry : Nat) : Symbols := Symbols.predefined.bind "main" (.label entry)

/-- The text section: the statements of the instructions, and the label between them. -/
theorem foldlM_add_codes {before after : List Instruction} {lines : List Line}
    (h : List.Forall₂ Says (codeLines before after) lines) (wanted : Option Nat) (globals : List (String × Loc))
    (hroom : ((before ++ after).flatMap Instruction.slots).length ≤ flashSize) :
    ∃ t sts, lines.foldlM (ProgramState.add wanted) { symbols := Symbols.predefined, globals := globals } = .ok t ∧
      t.symbols = mainSymbols (before.flatMap Instruction.slots).length ∧ t.globals = globals ∧
      List.Forall₂ Instruction.StatedBy (before ++ after) sts ∧ t.slots.toList = sts.flatMap Statement.block := by
  obtain ⟨front, back, rfl, hfront, hback⟩ := forall₂_append_left h
  rw [List.flatMap_append, List.length_append] at hroom
  have hfree : Symbols.predefined.tableOf? "main" = none := by decide +kernel
  cases hback with
  | @cons _ line _ back hline hback =>
    have hempty : ({ symbols := Symbols.predefined, globals := globals } : ProgramState).slots.size = 0 := rfl
    obtain ⟨t, ht, hst⟩ := ProgramState.foldlM_add_code (List.forall₂_map_left_iff.1 hfront) wanted
      (s := { symbols := Symbols.predefined, globals := globals }) (by omega)
    have hsize := hst.size
    have hlabel := ProgramState.add_entryLabel hline wanted (s := t) (by rw [hst.symbols]; exact hfree)
    obtain ⟨u, hu, htu⟩ := ProgramState.foldlM_add_code (List.forall₂_map_left_iff.1 hback) wanted
      (s := { t with symbols := t.symbols.bind "main" (.label t.slots.size) }) (by dsimp only; omega)
    obtain ⟨sts, hsts, hslots⟩ := hst.slots
    obtain ⟨sts', hsts', hslots'⟩ := htu.slots
    refine ⟨u, sts ++ sts', ?_, ?_, htu.globals.trans hst.globals, List.rel_append hsts hsts', ?_⟩
    · rw [List.foldlM_append]
      exact bind_eq_ok.2 ⟨t, ht, foldlM_cons_eq_ok.2 ⟨_, hlabel, hu⟩⟩
    · rw [htu.symbols, hst.symbols, hsize, hempty, Nat.zero_add]
      rfl
    · rw [hslots', hslots, List.flatMap_append]
      rfl

/-! ## Data memory -/

namespace DataState

theorem foldlM_push {row : List Byte} {ints : List (Loc × Int)}
    (h : List.Forall₂ (fun (b : Byte) (p : Loc × Int) => p.2 = b.toNat) row ints) {s : DataState}
    (hroom : s.bytes.size + row.length ≤ ramSize) :
    ∃ t, ints.foldlM (fun s p => s.push p.1 [BitVec.ofInt 8 p.2]) s = .ok t ∧
      t.bytes.toList = s.bytes.toList ++ row ∧ t.symbols = s.symbols := by
  induction h generalizing s with
  | nil => exact ⟨s, rfl, (List.append_nil _).symm, rfl⟩
  | @cons b p row ints hp _ ih =>
    rw [List.length_cons] at hroom
    have hbyte : BitVec.ofInt 8 p.2 = b := by rw [hp, BitVec.ofInt_natCast, BitVec.ofNat_toNat, BitVec.setWidth_eq]
    have hpush : s.push p.1 [BitVec.ofInt 8 p.2] = .ok { s with bytes := s.bytes ++ [b] } := by
      unfold push
      rw [hbyte, List.length_singleton, if_neg (by omega)]
    have hsize : (s.bytes ++ [b]).size = s.bytes.size + 1 := by simp
    obtain ⟨t, ht, hbytes, hsymbols⟩ := ih (s := { s with bytes := s.bytes ++ [b] }) (by dsimp only; omega)
    refine ⟨t, foldlM_cons_eq_ok.2 ⟨_, hpush, ht⟩, ?_, hsymbols⟩
    rw [hbytes, Array.toList_appendList, List.append_assoc]
    rfl

theorem integers_bytes {row : List Byte} (hrow : row ≠ []) {args : List Token}
    (hargs : Alternates ByteAs IsComma row args) (symbols : Symbols) (head : Token) :
    ∃ ints, integers symbols .byte head args = .ok ints ∧
      List.Forall₂ (fun (b : Byte) (p : Loc × Int) => p.2 = b.toNat) row ints := by
  have hkept : ∀ (b : Byte) t, ByteAs b t → ∃ t', resolveRef symbols .value t = .ok t' ∧ ByteAs b t' := by
    intro b t ht
    refine ⟨t, ?_, ht⟩
    unfold resolveRef
    rw [ht]
  have hoperand : ∀ (b : Byte) t, ByteAs b t → ∃ op, t.operand? = some op := by
    intro b t ht
    exact ⟨.imm b.toNat, by rw [Token.operand?, ht]⟩
  obtain ⟨args', hresolve, hargs'⟩ := resolveArgs_alternates hkept hoperand hargs
  have hkind : ∀ (b : Byte) t, ByteAs b t → t.kind ≠ .comma := by
    intro b t ht
    obtain ⟨op, hop⟩ := hoperand b t ht
    exact kind_ne_comma_of_operand? hop
  obtain ⟨vs, hvs, hall⟩ := splitArgs_alternates hkind hargs'
  have hvalues : values symbols .byte head args = .ok vs := by
    refine bind_eq_ok.2 ⟨args', hresolve, ?_⟩
    rw [hvs]
    cases hall with
    | nil => exact absurd rfl hrow
    | cons => rfl
  have hints : List.Forall₂ (fun (b : Byte) (p : Loc × Int) => p.2 = b.toNat) row
      (vs.map fun t => (t.loc, (t.int?).getD 0)) := by
    refine List.forall₂_map_right_iff.2 (hall.imp fun b t ht => ?_)
    rw [Token.int?, ht]
    rfl
  refine ⟨_, bind_eq_ok.2 ⟨vs, hvalues, ?_⟩, hints⟩
  rw [mapM_eq_ok_iff, List.forall₂_map_right_iff, List.forall₂_same]
  intro t ht
  have hbytes : ∀ t ∈ vs, ∃ b, ByteAs b t := forall_of_forall₂_right (fun b t (hb : ByteAs b t) => ⟨b, hb⟩) hall
  obtain ⟨b, hb⟩ := hbytes t ht
  have hint : integer t = .ok b.toNat := by
    unfold integer Token.int?
    rw [hb]
  have hget : t.int?.getD 0 = b.toNat := by
    rw [Token.int?, hb]
    rfl
  rw [hget]
  exact bind_eq_ok.2 ⟨_, hint, rfl⟩

theorem add_bytes {row : List Byte} (hrow : row ≠ []) {line : Line} (hline : (SourceLine.bytes row).Says line) {s : DataState}
    (hroom : s.bytes.size + row.length ≤ ramSize) :
    ∃ t, s.add line = .ok t ∧ t.bytes.toList = s.bytes.toList ++ row ∧ t.symbols = s.symbols := by
  obtain ⟨n, tokens⟩ := line
  obtain ⟨u, args, rfl, hu, hargs⟩ := hline
  obtain ⟨ints, hints, hall⟩ := integers_bytes hrow hargs s.symbols u
  obtain ⟨t, ht, hbytes, hsymbols⟩ := foldlM_push hall hroom
  have hbind := bindLabel_of_ne (t := u) (by rw [hu]; exact fun _ => nofun) args s.symbols s.bytes.size
  refine ⟨t, bind_eq_ok.2 ⟨_, hbind, ?_⟩, hbytes, hsymbols⟩
  dsimp only
  rw [hu]
  exact bind_eq_ok.2 ⟨ints, hints, ht⟩

theorem foldlM_add_bytes {rows : List (List Byte)} {lines : List Line}
    (h : List.Forall₂ (fun row line => (SourceLine.bytes row).Says line) rows lines) (hrows : ∀ row ∈ rows, row ≠ [])
    {s : DataState} (hroom : s.bytes.size + rows.flatten.length ≤ ramSize) :
    ∃ t, lines.foldlM add s = .ok t ∧ t.bytes.toList = s.bytes.toList ++ rows.flatten ∧ t.symbols = s.symbols := by
  induction h generalizing s with
  | nil => exact ⟨s, rfl, (List.append_nil _).symm, rfl⟩
  | @cons row line rows lines hline _ ih =>
    rw [List.forall_mem_cons] at hrows
    rw [List.flatten_cons, List.length_append, ← Nat.add_assoc] at hroom
    obtain ⟨t, ht, hbytes, hsymbols⟩ := add_bytes hrows.1 hline (Nat.le_trans (Nat.le_add_right _ _) hroom)
    have hsize : t.bytes.size = s.bytes.size + row.length := by
      rw [← Array.length_toList, hbytes, List.length_append, Array.length_toList]
    obtain ⟨u, hu, hbytes', hsymbols'⟩ := ih hrows.2 (s := t) (by omega)
    refine ⟨u, foldlM_cons_eq_ok.2 ⟨t, ht, hu⟩, ?_, hsymbols'.trans hsymbols⟩
    rw [hbytes', hbytes, List.flatten_cons, List.append_assoc]

end DataState

/-! ## Both memories -/

/-- A source is laid out as the slots of its instructions, with its bytes and with the entry between the two lists. -/
theorem layout_source {rows : List (List Byte)} {before after : List Instruction} {lines : List Line}
    (h : List.Forall₂ Says (sourceLines rows before after) lines) (hrows : ∀ row ∈ rows, row ≠ [])
    (hflash : ((before ++ after).flatMap Instruction.slots).length ≤ flashSize)
    (hram : ramStart + rows.flatten.length ≤ ramSize) (wanted : Option Nat) :
    ∃ l sts, layout lines wanted = .ok l ∧ List.Forall₂ Instruction.StatedBy (before ++ after) sts ∧
      l.slots.toList = sts.flatMap Statement.block ∧
      l.symbols = mainSymbols (before.flatMap Instruction.slots).length ∧
      l.bytes = withEntry (Array.replicate ramStart 0 ++ rows.flatten.toArray)
        (before.flatMap Instruction.slots).length := by
  have hmnemonics := checkMnemonics_lines h
  obtain ⟨first, front, second, entry, codes, last, rfl, hfirst, hfront, hsecond, hentry, hcodes, hlast⟩ := exists_parts h
  obtain ⟨loc, hglobal⟩ : ∃ loc, globalName? entry.tokens = some ("main", loc) := by
    obtain ⟨t, ⟨lexeme, raw, loc⟩, htokens, ht, rfl⟩ := hentry
    refine ⟨loc, ?_⟩
    rw [htokens]
    unfold globalName?
    dsimp only
    rw [Token.isDir, ht, beq_self_eq_true, if_pos rfl]
  have hplainFront : ∀ line ∈ front, line.Plain :=
    forall_of_forall₂_right (fun row line (hline : (SourceLine.bytes row).Says line) => Says.plain hline nofun) hfront
  have hplainBack : ∀ line ∈ entry :: codes, line.Plain := by
    rw [List.forall_mem_cons]
    refine ⟨Says.plain hentry nofun, plain_of_forall₂ (fun l hl d => ?_) hcodes⟩
    rintro rfl
    simp [codeLines] at hl
  have hsections := checkSections_parts hfirst hplainFront hsecond hplainBack hlast
  obtain ⟨program, sts, hprogram, hsymbols, hglobals, hsts, hslots⟩ :=
    foldlM_add_codes hcodes wanted [("main", loc)] hflash
  have hstart : (Array.replicate ramStart (0 : Byte)).size = ramStart := Array.size_replicate
  obtain ⟨data, hdata, hbytes, hdataSymbols⟩ := DataState.foldlM_add_bytes hfront hrows
    (s := ⟨Array.replicate ramStart 0, program.symbols⟩) (by rw [hstart]; exact hram)
  have hlength : (first :: front).length = front.length + 1 := rfl
  have hdataLines : (⟨some 0, front.length + 1⟩ : Sections).dataLines
      ((first :: front) ++ second :: entry :: (codes ++ [last])) = front := by
    change List.drop 1 (List.take (first :: front).length _) = front
    rw [List.take_left]
    rfl
  have htextLines : (⟨some 0, front.length + 1⟩ : Sections).textLines
      ((first :: front) ++ second :: entry :: (codes ++ [last])) = codes := by
    have hsplit : (first :: front) ++ second :: entry :: (codes ++ [last]) =
        ((first :: front) ++ [second, entry] ++ codes) ++ [last] := by simp
    unfold Sections.textLines
    rw [hsplit, List.dropLast_concat]
    exact List.drop_left' (by simp)
  have hsecondLine : ((first :: front) ++ second :: entry :: (codes ++ [last]))[front.length + 1 + 1]? = some entry := by
    rw [List.getElem?_append_right (by simp)]
    simp
  have hlabel : data.symbols.label? "main" = some (before.flatMap Instruction.slots).length := by
    rw [hdataSymbols, hsymbols, mainSymbols, Symbols.label?_bind_self]
  have hfound : (program.globals.find? fun p => (program.symbols.label? p.1).isNone) = none := by
    rw [List.find?_eq_none, hglobals, hsymbols]
    intro p hp
    rw [List.mem_singleton.1 hp, mainSymbols, Symbols.label?_bind_self]
    exact Bool.false_ne_true
  have hlayoutProgram : layoutProgram ⟨some 0, front.length + 1⟩
      ((first :: front) ++ second :: entry :: (codes ++ [last])) Symbols.predefined wanted = .ok program := by
    unfold layoutProgram
    dsimp only
    rw [hsecondLine, Option.bind_some, hglobal, htextLines]
    refine bind_eq_ok.2 ⟨program, hprogram, ?_⟩
    rw [hfound]
    rfl
  refine ⟨_, sts, bind_eq_ok.2 ⟨_, hsections, bind_eq_ok.2 ⟨(), hmnemonics, bind_eq_ok.2 ⟨program, hlayoutProgram,
    bind_eq_ok.2 ⟨data, ?_, rfl⟩⟩⟩⟩, hsts, hslots, hdataSymbols.trans hsymbols, ?_⟩
  · rw [hdataLines]
    exact hdata
  · have hall : data.bytes = Array.replicate ramStart 0 ++ rows.flatten.toArray := by
      apply Array.ext'
      rw [hbytes, Array.toList_append]
    dsimp only
    rw [hglobals, List.head?_cons, Option.bind_some, hlabel, Option.getD_some, hall]

end Avr
