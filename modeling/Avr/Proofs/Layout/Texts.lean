import Avr.Proofs.Layout.Concatenated
import Avr.Proofs.Layout.Written
import Avr.Proofs.Token.Quoted

/-!
# Bytes of quoted texts

* `unescapes_escaped` : what is written between the quotes reads as the bytes of the text;
* `texts_of_alternates` : texts with commas between them are the arguments of a directive, under any table of names;
* `TextStatement.statement` : what a statement of quoted texts stands for, `standsFor` : its tokens do;
* `texts_round_trip` : the statement is cut into its texts, and adds exactly their bytes.
-/

namespace Avr

open Text Lexer

/-! ## Texts read back -/

/-- What is written between quotes reads as the bytes of the text. By induction on the text: a character is read as it
is, or through the escape that it is written as. -/
theorem unescapes_escaped {cs : List Char} (hcs : ∀ c ∈ cs, c.toNat < 128) :
    Unescapes (escaped cs) (encodeUtf8 (String.ofList cs)) := by
  rw [encodeUtf8_ofList]
  induction cs with
  | nil => exact .nil
  | cons c cs ih =>
    rw [List.forall_mem_cons] at hcs
    rw [escaped_cons, List.flatMap_cons, charBytes_ascii hcs.1]
    obtain ⟨hescape, hbackslash, -⟩ | ⟨d, hescape, hd⟩ := escape_cases c
    · rw [hescape]
      exact .plain hbackslash hcs.1 (ih hcs.2)
    · rw [hescape]
      exact .escape hd (ih hcs.2)

/-! ## Arguments -/

/-- The token of a text in quotes. -/
def TokenOf (q : QuotedText) (t : Token) : Prop := reading t = q.reading

theorem TokenOf.lexeme {q : QuotedText} {t : Token} (h : TokenOf q t) :
    t.lexeme = .str (String.ofList (escaped q.text.1)) := congrArg Prod.fst h

theorem TokenOf.kind {q : QuotedText} {t : Token} (h : TokenOf q t) : t.kind = .str := by
  rw [Token.kind, h.lexeme]
  rfl

theorem alternates_of_readings {first : QuotedText} {more : List QuotedText} {args : List Token}
    (h : args.map reading = first.reading :: more.flatMap fun q => [(.comma, ","), q.reading]) :
    Alternates TokenOf IsComma (first :: more) args := by
  induction more generalizing first args with
  | nil =>
    obtain ⟨t, ts, rfl, ht, hts⟩ := List.map_eq_cons_iff.1 h
    rw [List.flatMap_nil, List.map_eq_nil_iff] at hts
    rw [hts]
    exact .one ht
  | cons q more ih =>
    obtain ⟨t, ts, rfl, ht, hts⟩ := List.map_eq_cons_iff.1 h
    obtain ⟨c, ts, rfl, hc, hts⟩ := List.map_eq_cons_iff.1 hts
    exact .cons ht (congrArg Prod.fst hc) (ih hts)

/-- Texts with commas between them are arguments that no table of names changes. -/
theorem texts_of_alternates {qs : List QuotedText} (hqs : qs ≠ []) {args : List Token}
    (h : Alternates TokenOf IsComma qs args) (symbols : Symbols) :
    Texts symbols args (qs.map fun q => encodeUtf8 (String.ofList q.text.1)) := by
  have hself : ∀ (q : QuotedText) t, TokenOf q t → ∃ t', resolveRef symbols .value t = .ok t' ∧ TokenOf q t' := by
    intro q t ht
    refine ⟨t, ?_, ht⟩
    unfold resolveRef
    rw [ht.lexeme]
  obtain ⟨ts, hrefs, hts⟩ := h.resolveRefs hself
  have hgroup : NoGroup ts := by
    refine hts.forall_mem (fun q _ t ht => ?_) fun t ht => ?_
    · rw [ht.lexeme]
      simp
    · rw [IsComma] at ht
      rw [ht]
      simp
  have houtside : ∀ t ∈ ts, Expr.inAlphabet t = false := by
    refine hts.forall_mem (fun q _ t ht => ?_) fun t ht => inAlphabet_comma ht
    rw [Expr.inAlphabet, ht.kind]
    rfl
  have hresolved : resolveArgs symbols .value args = .ok ts :=
    bind_eq_ok.2 ⟨ts, hrefs, bind_eq_ok.2 ⟨ts, resolveSelects_noGroup hgroup, evaluate_of_outside houtside⟩⟩
  have hkind : ∀ (q : QuotedText) t, TokenOf q t → t.kind ≠ .comma := by
    intro q t ht
    rw [ht.kind]
    decide
  obtain ⟨vs, hvs, hall⟩ := splitArgs_alternates hkind hts
  have hne : vs ≠ [] := by
    rintro rfl
    exact hqs (List.forall₂_nil_right_iff.1 hall)
  refine ⟨vs, ⟨hne, ts, hresolved, hvs⟩, List.forall₂_map_right_iff.2 (hall.flip.imp fun t q ht => ?_)⟩
  refine ⟨_, TokenOf.lexeme ht, ?_⟩
  rw [String.toList_ofList]
  exact unescapes_escaped q.text.2

/-! ## Statements -/

namespace Lexer.TextStatement

def texts (st : TextStatement) : List QuotedText := st.first :: st.more

/-- What stands behind each text: nothing, or a zero. -/
def ending (st : TextStatement) : List Byte := if st.dir = .ascii then [] else [0]

/-- The bytes of the texts of a statement, each with what stands behind it. -/
def bytes (st : TextStatement) : List Byte :=
  st.texts.flatMap fun q => encodeUtf8 (String.ofList q.text.1) ++ st.ending

def name? (st : TextStatement) : Option String := st.label.map fun l => String.ofList l.name.1

def statement (st : TextStatement) : DataStatement :=
  ⟨st.name?, .texts (decide (st.dir ≠ .ascii)) (st.texts.map fun q => encodeUtf8 (String.ofList q.text.1))⟩

theorem emitted_statement (st : TextStatement) : st.statement.item.emitted = st.bytes := by
  rw [statement, DataItem.emitted, List.flatMap_map]
  unfold bytes ending
  by_cases hdir : st.dir = .ascii
  · simp [hdir]
  · simp [hdir]

variable (st : TextStatement)

theorem behindLabel_of_readings {tokens : List Token} (h : tokens.map reading = st.readings) :
    ∃ head args, behindLabel tokens = head :: args ∧ leadingLabel? tokens = st.name? ∧
      head.lexeme = .dir st.dir ∧ Alternates TokenOf IsComma st.texts args := by
  unfold readings at h
  unfold name?
  cases hlabel : st.label with
  | none =>
    rw [hlabel, Option.toList_none, List.map_nil, List.nil_append] at h
    obtain ⟨⟨lexeme, raw, loc⟩, args, rfl, hhead, hargs⟩ := List.map_eq_cons_iff.1 h
    obtain rfl : lexeme = .dir st.dir := congrArg Prod.fst hhead
    exact ⟨_, args, rfl, rfl, rfl, alternates_of_readings hargs⟩
  | some l =>
    rw [hlabel, Option.toList_some, List.map_singleton, List.singleton_append] at h
    obtain ⟨⟨lexeme, raw, loc⟩, rest, rfl, hlabel, hrest⟩ := List.map_eq_cons_iff.1 h
    obtain rfl : lexeme = .label (String.ofList l.name.1) := congrArg Prod.fst hlabel
    obtain ⟨head, args, rfl, hhead, hargs⟩ := List.map_eq_cons_iff.1 hrest
    exact ⟨head, args, rfl, rfl, congrArg Prod.fst hhead, alternates_of_readings hargs⟩

theorem reads {head : Token} {args : List Token} (hhead : head.lexeme = .dir st.dir)
    (hargs : Alternates TokenOf IsComma st.texts args) (symbols : Symbols) :
    Reads symbols (head :: args) st.statement.item := by
  have htexts := texts_of_alternates (List.cons_ne_nil _ _) hargs symbols
  unfold statement
  rcases st.forTexts with hdir | hdir
  · have hended : decide (st.dir ≠ .ascii) = false := by
      rw [hdir]
      rfl
    rw [hended]
    exact .texts (hdir ▸ hhead) htexts
  · have hended : decide (st.dir ≠ .ascii) = true := by
      rcases hdir with hdir | hdir <;> rw [hdir] <;> rfl
    rw [hended]
    refine .ended ?_ htexts
    rcases hdir with hdir | hdir
    · exact .inl (hdir ▸ hhead)
    · exact .inr (hdir ▸ hhead)

theorem standsFor {line : Line} (hline : line.tokens.map reading = st.readings) {symbols : Symbols} {a : Nat}
    (hlabel : ∀ name ∈ st.name?, symbols.Admits name (.label a)) : line.StandsFor symbols a st.statement := by
  obtain ⟨head, args, hbehind, hleading, hhead, hargs⟩ := st.behindLabel_of_readings hline
  refine ⟨hleading, fun d hd => ?_, hbehind ▸ st.reads hhead hargs _, List.forall_mem_nil _⟩
  obtain ⟨name, hname, rfl⟩ := Option.map_eq_some_iff.1 (Option.mem_toList.1 hd)
  exact hlabel name hname

end Lexer.TextStatement

/-- Texts that are written between quotes come back as their bytes. The line of a statement is cut into its label, its
directive and its texts, each of them one token up to its own closing quote, whatever the texts and the comment behind
them are. It adds exactly the bytes of the texts to data memory, with a zero behind each unless the directive is
`.ascii`, and binds its label in front of them; or it overflows. -/
theorem texts_round_trip (st : TextStatement) (n : Nat) :
    ∃ tokens, tokenizeLine n st.written = .ok ⟨n, tokens⟩ ∧ tokens.map reading = st.readings ∧
      ∀ s : DataState, s.bytes.size ≤ ramSize →
        (∀ name ∈ st.name?, s.symbols.Admits name (.label s.bytes.size)) →
        s.Emits st.bytes (s.symbols.bindAll (st.statement.labelled s.bytes.size)) (s.add ⟨n, tokens⟩) := by
  obtain ⟨tokens, htokens, hreadings⟩ := st.tokenizeLine_written n
  refine ⟨tokens, htokens, hreadings, fun s hs hlabel => ?_⟩
  have hstands : Line.StandsFor ⟨n, tokens⟩ s.symbols s.bytes.size st.statement := st.standsFor hreadings hlabel
  have hemits := DataState.add_emits hstands hs
  have hbindings (a : Nat) : st.statement.bindings a = st.statement.labelled a := List.append_nil _
  rwa [st.emitted_statement, hbindings] at hemits

/-- Texts with quotes of both kinds, separators and escapes in them, and none at all. -/
def mixedStatement : TextStatement where
  indent := ⟨[' '], List.all_eq_true.1 rfl⟩
  label := some ⟨⟨['m', '.', '1'], 'm', ['.', '1'], rfl, rfl,
    List.forall_mem_cons.2 ⟨.inr rfl, List.forall_mem_singleton.2 (.inl rfl)⟩⟩, ⟨[], List.all_eq_true.1 rfl⟩⟩
  word := ".Asciz".toList
  dir := .asciz
  named := by decide +kernel
  forTexts := .inr (.inr rfl)
  first := ⟨⟨[' '], List.all_eq_true.1 rfl⟩, ⟨[';', ',', '\x22', '.', '\x27', '\\'], by simp⟩,
    ⟨[], List.all_eq_true.1 rfl⟩⟩
  spaced := List.cons_ne_nil _ _
  more := [⟨⟨['\t'], List.all_eq_true.1 rfl⟩, ⟨[], by simp⟩, ⟨[' '], List.all_eq_true.1 rfl⟩⟩,
    ⟨⟨[], List.all_eq_true.1 rfl⟩, ⟨['\n', '\r'], by simp⟩, ⟨[], List.all_eq_true.1 rfl⟩⟩]
  comment := some [' ', '\x22', ';']

theorem texts_round_trip_mixed :
    ∃ tokens, tokenizeLine 1 " m.1:.Asciz \";,\\\".\x27\\\\\",\t\"\" ,\"\\n\\r\"; \";".toList = .ok ⟨1, tokens⟩ ∧
      tokens.map reading = [(.label "m.1", "m.1:"), (.dir .asciz, ".Asciz"),
        (.str ";,\\\".\x27\\\\", "\";,\\\".\x27\\\\\""), (.comma, ","), (.str "", "\"\""), (.comma, ","),
        (.str "\\n\\r", "\"\\n\\r\"")] ∧
      DataState.add ⟨windows, .predefined⟩ ⟨1, tokens⟩ =
        .ok ⟨windows ++ ([0x3B, 0x2C, 0x22, 0x2E, 0x27, 0x5C, 0, 0, 0x0A, 0x0D, 0] : List Byte),
          Symbols.predefined.bind "m.1" (.label ramStart)⟩ := by
  obtain ⟨tokens, htokens, hreadings, hemits⟩ := texts_round_trip mixedStatement 1
  have hbytes : mixedStatement.bytes = [0x3B, 0x2C, 0x22, 0x2E, 0x27, 0x5C, 0, 0, 0x0A, 0x0D, 0] := by
    unfold TextStatement.bytes
    simp only [encodeUtf8_ofList]
    decide +kernel
  have hfree : Symbols.predefined.tableOf? "m.1" = none := by decide +kernel
  have hadd := hemits ⟨windows, .predefined⟩ size_windows_le fun name hname => by
    obtain rfl := Option.some.inj hname
    exact .inl hfree
  refine ⟨tokens, htokens, hreadings, ?_⟩
  have hfits := hadd.fits (by rw [hbytes, size_windows]; decide)
  rw [hbytes, size_windows] at hfits
  exact hfits

end Avr
