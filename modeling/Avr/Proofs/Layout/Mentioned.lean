import Avr.Proofs.Expression.Grammar
import Avr.Proofs.Layout.Appended
import Avr.Proofs.Token.Joined
import Avr.Proofs.Token.Selection

/-!
# A load of the low byte of a label

* `resolveArgs_closed`, `instruction_load` : a closed selection is the low byte of the label's index, and it is loaded;
* `resolveArgs_open` : where no parenthesis is closed nothing is selected;
* `EndsIn`, `withMention` : a source cut in front of its last line, and the source with the load there;
* `tokenize_withMention` : its lines;
* `Image.Loads` : an image with one load more; `assemble_withMention` : the source with the load has such an image;
* `mention_assembles_iff` : a label can be used so exactly where its name has no dot.
-/

namespace Avr

open Lexer

/-! ## Closed selections -/

theorem toNat_select_low (i : Nat) : (Half.low.select (i : Int)).toNat = i % 256 := by
  unfold Half.select
  rw [toNat_lowByte, BitVec.ofInt_natCast, BitVec.toNat_ofNat]
  omega

/-- A byte selection with a closed group behind it is replaced by the byte. -/
theorem resolveSelects_group {t u byte : Token} {half : Half} {us inner rest r : List Token}
    (ht : t.lexeme = .select half) (hu : u.isSign .openParen = true) (hgroup : closeGroup? 0 us = some (inner, rest))
    (hbyte : selectByte t half inner = .ok byte) (hrest : resolveSelects rest = .ok r) :
    resolveSelects (t :: u :: us) = .ok (byte :: r) := by
  rw [resolveSelects_opened ht hu hgroup, hbyte, hrest]
  rfl

/-- The operands of the load: the low byte stands at the place of its selection. -/
def loadedTokens (n i : Nat) : List Token :=
  [⟨.reg 16, "R16", ⟨n, 5⟩⟩, ⟨.comma, ",", ⟨n, 8⟩⟩, ⟨.int (i % 256 : Nat), "lo8", ⟨n, 10⟩⟩]

/-- A closed selection picks the low byte of the label's index. -/
theorem resolveArgs_closed {symbols : Symbols} {name : String} {i : Nat} (hname : symbols.label? name = some i)
    (n col : Nat) :
    resolveArgs symbols .value ((loadTokens n).tail ++ closedName n name col) = .ok (loadedTokens n i) := by
  have hmeaning : symbols.meaning? .value name = some (.int i) := by
    rw [Symbols.meaning?, Symbols.label?_eq_some_iff.1 hname]
    rfl
  have hrefs : resolveRefs symbols .value ((loadTokens n).tail ++ closedName n name col) =
      .ok ((loadTokens n).tail ++ [⟨.int i, name, ⟨n, 14⟩⟩, ⟨.sign .closeParen, ")", ⟨n, col⟩⟩]) := by
    have hlast : [⟨.sign .closeParen, ")", ⟨n, col⟩⟩].mapM (resolveRef symbols .value) =
        .ok [⟨.sign .closeParen, ")", ⟨n, col⟩⟩] := rfl
    have href : resolveRef symbols .value ⟨.ref name, name, ⟨n, 14⟩⟩ = .ok ⟨.int i, name, ⟨n, 14⟩⟩ := by
      unfold resolveRef
      dsimp only
      rw [hmeaning]
    refine mapM_append_eq_ok.2 ⟨_, _, rfl, rfl, ?_⟩
    rw [mapM_eq_ok_iff] at hlast ⊢
    exact .cons href hlast
  have hbyte : selectByte ⟨.select .low, "lo8", ⟨n, 10⟩⟩ .low [⟨.int i, name, ⟨n, 14⟩⟩] =
      .ok ⟨.int (i % 256 : Nat), "lo8", ⟨n, 10⟩⟩ := by
    unfold selectByte
    dsimp only
    rw [evaluateSingle_int rfl]
    dsimp only
    rw [toNat_select_low]
  have hselects : resolveSelects ((loadTokens n).tail ++ [⟨.int i, name, ⟨n, 14⟩⟩, ⟨.sign .closeParen, ")", ⟨n, col⟩⟩]) =
      .ok (loadedTokens n i) := by
    change resolveSelects (⟨.reg 16, "R16", ⟨n, 5⟩⟩ :: ⟨.comma, ",", ⟨n, 8⟩⟩ :: ⟨.select .low, "lo8", ⟨n, 10⟩⟩ ::
      ⟨.sign .openParen, "(", ⟨n, 13⟩⟩ :: ⟨.int i, name, ⟨n, 14⟩⟩ :: [⟨.sign .closeParen, ")", ⟨n, col⟩⟩]) = _
    rw [resolveSelects_cons (t := ⟨.reg 16, "R16", ⟨n, 5⟩⟩) (fun _ h => by cases h),
      resolveSelects_cons (t := ⟨.comma, ",", ⟨n, 8⟩⟩) (fun _ h => by cases h),
      resolveSelects_group rfl rfl rfl hbyte (by rw [resolveSelects])]
    rfl
  refine bind_eq_ok.2 ⟨_, hrefs, bind_eq_ok.2 ⟨_, hselects, ?_⟩⟩
  rw [loadedTokens, evaluate_cons_other rfl, evaluate_cons_other rfl, evaluate_int rfl]
  rfl

theorem instruction_load (n i : Nat) (loc : Loc) :
    ∃ load, (⟨.LDI, loc, loadedTokens n i, n⟩ : Statement).instruction = .ok load ∧ load.mnemonic = .LDI ∧
      load.operands = [.reg 16, .imm (i % 256 : Nat)] := by
  have hcheck : checkArgs .LDI loc (loadedTokens n i) = .ok [.reg 16, .imm (i % 256 : Nat)] := by
    refine checkArgs_eq_ok_iff.2
      ⟨[⟨.reg 16, "R16", ⟨n, 5⟩⟩, ⟨.int (i % 256 : Nat), "lo8", ⟨n, 10⟩⟩], rfl, rfl, .cons ?_ (.cons ?_ .nil)⟩
    · exact checkArg_eq_ok_iff.2 ⟨rfl, rfl, .inr ⟨rfl, rfl⟩⟩
    · refine checkArg_eq_ok_iff.2 ⟨rfl, rfl, .inr ⟨rfl, ?_⟩⟩
      change (decide ((0 : Int) ≤ (i % 256 : Nat)) && decide (((i % 256 : Nat) : Int) ≤ 255)) = true
      rw [Bool.and_eq_true, decide_eq_true_iff, decide_eq_true_iff]
      omega
  obtain ⟨opcode, hopcode⟩ : ∃ opcode, encode .LDI [.reg 16, .imm (i % 256 : Nat)] = some opcode := ⟨_, rfl⟩
  refine ⟨⟨.LDI, [.reg 16, .imm (i % 256 : Nat)], opcode, n⟩, bind_eq_ok.2 ⟨_, hcheck, ?_⟩, rfl, rfl⟩
  rw [hopcode]
  rfl

/-! ## Open selections -/

/-- A group that no parenthesis closes is not found. -/
theorem closeGroup?_open {ts : List Token} (h : ∀ t ∈ ts, t.lexeme ≠ .sign .closeParen) (depth : Nat) :
    closeGroup? depth ts = none := by
  induction ts generalizing depth with
  | nil => rfl
  | cons t ts ih =>
    rw [List.forall_mem_cons] at h
    have hclose : t.isSign .closeParen = false := beq_false_of_ne h.1
    rw [closeGroup?.eq_def]
    dsimp only
    rw [hclose, if_neg Bool.false_ne_true, ih h.2, ih h.2]
    split <;> rfl

theorem resolveRef_open {s : Symbols} {r : Reference} {t u : Token} (ht : t.lexeme ≠ .sign .closeParen)
    (h : resolveRef s r t = .ok u) : u.lexeme ≠ .sign .closeParen := by
  unfold resolveRef at h
  split at h
  · next name _ =>
    split at h
    · next lexeme hlexeme =>
      cases h
      unfold Symbols.meaning? at hlexeme
      split at hlexeme
      · cases hlexeme
        nofun
      · cases hlexeme
        nofun
      · cases hlexeme
        nofun
      · obtain ⟨f, -, rfl⟩ := Option.map_eq_some_iff.1 hlexeme
        nofun
    · cases h
  · cases h
    exact ht

theorem resolveArgs_open {s : Symbols} {r : Reference} {n : Nat} {more ts : List Token}
    (hmore : ∀ t ∈ more, t.lexeme ≠ .sign .closeParen) : resolveArgs s r ((loadTokens n).tail ++ more) ≠ .ok ts := by
  intro h
  obtain ⟨us, hus, h⟩ := bind_eq_ok.1 h
  obtain ⟨vs, hvs, -⟩ := bind_eq_ok.1 h
  obtain ⟨front, back, rfl, hfront, hback⟩ := mapM_append_eq_ok.1 hus
  have hkept : (loadTokens n).tail.mapM (resolveRef s r) = .ok (loadTokens n).tail := rfl
  obtain rfl := Except.ok.inj (hkept.symm.trans hfront)
  have hopen : ∀ t ∈ back, t.lexeme ≠ .sign .closeParen := by
    rw [mapM_eq_ok_iff] at hback
    exact forall_of_forall₂_right (fun t u (htu : t.lexeme ≠ .sign .closeParen ∧ resolveRef s r t = .ok u) =>
      resolveRef_open htu.1 htu.2) ((List.forall₂_and_left _ _).2 ⟨hmore, hback⟩)
  change resolveSelects (⟨.reg 16, "R16", ⟨n, 5⟩⟩ :: ⟨.comma, ",", ⟨n, 8⟩⟩ :: ⟨.select .low, "lo8", ⟨n, 10⟩⟩ ::
    ⟨.sign .openParen, "(", ⟨n, 13⟩⟩ :: back) = _ at hvs
  rw [resolveSelects_cons (t := ⟨.reg 16, "R16", ⟨n, 5⟩⟩) fun _ => nofun] at hvs
  obtain ⟨vs₁, hvs₁, -⟩ := map_eq_ok.1 hvs
  rw [resolveSelects_cons (t := ⟨.comma, ",", ⟨n, 8⟩⟩) fun _ => nofun] at hvs₁
  obtain ⟨vs₂, hvs₂, -⟩ := map_eq_ok.1 hvs₁
  obtain ⟨u, us, inner, rest, byte, r', heq, -, hgroup, -⟩ := resolveSelects_select rfl hvs₂
  obtain ⟨rfl, rfl⟩ := List.cons.inj heq
  rw [closeGroup?_open hopen] at hgroup
  cases hgroup

/-! ## Sources -/

/-- A source cut in front of the last of its lines that have tokens. -/
def EndsIn (source front back : String) : Prop := source = front ++ "\n" ++ back ∧ ∃ line, tokenize back = .ok [line]

/-- A source, cut in front of its last line, with a load of the low byte of a name there. -/
def withMention (front back name : String) : String := front ++ "\n" ++ mention name ++ "\n" ++ back

/-- Every program can be cut in front of its last line. -/
theorem exists_endsIn {source : String} {lines : List Line} {wanted : Option Nat} {l : Layout}
    (hlines : tokenize source = .ok lines) (hl : layout lines wanted = .ok l) :
    ∃ front back, EndsIn source front back := by
  obtain ⟨s, -, -, hsections, -⟩ := layout_ok hl
  obtain ⟨above, last, rfl, habove, -⟩ := checkSections_concat hsections
  obtain ⟨front, back, line, hsource, hline⟩ := exists_last habove hlines
  exact ⟨front, back, hsource, line, hline⟩

theorem unbroken_mention {name : String} (hname : IsName name.toList) : Text.Unbroken (mention name).toList := by
  have hnot {c : Char} (hword : Text.isWordChar c = false) (hdot : c ≠ '.') : c ∉ name.toList :=
    fun hc => (hname.isNameChar c hc).ne hword hdot rfl
  rw [toList_mention]
  constructor
  · simp [hnot (c := '\n') rfl (by decide)]
  · simp [hnot (c := '\r') rfl (by decide)]

theorem tokenize_mention {name : String} (hname : IsName name.toList) {lines : List Line} :
    tokenize (mention name ++ "\n") = .ok lines ↔
      ∃ line, Lexer.tokenizeLine 1 (mention name).toList = .ok line ∧ lines = [line] := by
  have hlines : Text.lines (mention name ++ "\n").toList = [(mention name).toList] := by
    rw [String.toList_append]
    exact Text.lines_append_newline (unbroken_mention hname) []
  have hkeep {line : Line} (h : Lexer.tokenizeLine 1 (mention name).toList = .ok line) :
      [line].filter (!·.tokens.isEmpty) = [line] := by
    obtain ⟨more, rfl⟩ := tokenizeLine_load h
    rfl
  rw [tokenize_eq_ok_iff, hlines, List.zipIdx_cons, List.zipIdx_nil]
  constructor
  · rintro ⟨all, hall, rfl⟩
    cases hall with
    | cons hline hnil =>
      cases hnil
      exact ⟨_, hline, hkeep hline⟩
  · rintro ⟨line, hline, rfl⟩
    exact ⟨[line], .cons hline .nil, (hkeep hline).symm⟩

/-- The lines of a source with the load: in front of the last line there is the one of the load. -/
theorem tokenize_withMention {front back name : String} (hname : IsName name.toList) {above : List Line} {last : Line}
    (hfront : tokenize (front ++ "\n") = .ok above) (hback : tokenize back = .ok [last]) :
    ∃ n m, ∀ lines, tokenize (withMention front back name) = .ok lines ↔
      ∃ line, Lexer.tokenizeLine n (mention name).toList = .ok line ∧ lines = above ++ [line, last.below m] := by
  refine ⟨1 + (Text.lines (front ++ "\n").toList).length,
    (Text.lines (front ++ "\n" ++ mention name ++ "\n").toList).length, fun lines => ?_⟩
  have hload {lines : List Line} : tokenize (front ++ "\n" ++ mention name ++ "\n") = .ok lines ↔
      ∃ line, Lexer.tokenizeLine (1 + (Text.lines (front ++ "\n").toList).length) (mention name).toList = .ok line ∧
        lines = above ++ [line] := by
    have hjoin : front ++ "\n" ++ mention name ++ "\n" = front ++ "\n" ++ (mention name ++ "\n") := String.append_assoc
    rw [hjoin, tokenize_append]
    constructor
    · rintro ⟨above', below, habove', hbelow, rfl⟩
      obtain ⟨line, hline, rfl⟩ := (tokenize_mention hname).1 hbelow
      obtain rfl := Except.ok.inj (hfront.symm.trans habove')
      exact ⟨_, tokenizeLine_below.2 ⟨line, hline, rfl⟩, rfl⟩
    · rintro ⟨line, hline, rfl⟩
      obtain ⟨line', hline', rfl⟩ := tokenizeLine_below.1 hline
      exact ⟨above, [line'], hfront, (tokenize_mention hname).2 ⟨line', hline', rfl⟩, rfl⟩
  rw [withMention, tokenize_append]
  constructor
  · rintro ⟨above', below, habove', hbelow, rfl⟩
    obtain ⟨line, hline, rfl⟩ := hload.1 habove'
    obtain rfl := Except.ok.inj (hback.symm.trans hbelow)
    exact ⟨line, hline, by simp⟩
  · rintro ⟨line, hline, rfl⟩
    exact ⟨above ++ [line], [last], hload.2 ⟨line, hline, rfl⟩, hback, by simp⟩

/-! ## Images -/

/-- The second image has a load of the low byte of `index` behind the instructions of the first one, and is the same
otherwise but for the slot to stop at. -/
structure Image.Loads (image image' : Image) (index : Nat) : Prop where
  codeLength : image'.codeLength = image.codeLength + 1
  load : ∃ i, image'.program[image.codeLength]? = some (.inst i) ∧ i.mnemonic = .LDI ∧
    i.operands = [.reg 16, .imm (index % 256 : Nat)]
  program : ∀ j, j ≠ image.codeLength → image'.program[j]? = image.program[j]?
  symbols : image'.symbols = image.symbols
  data : image'.data = image.data
  dataEnd : image'.dataEnd = image.dataEnd

theorem getElem?_filled_push {slots : Array Slot} (hroom : slots.size < flashSize) (slot : Slot) (j : Nat) :
    (filled (slots.push slot))[j]? = if j = slots.size then some slot else (filled slots)[j]? := by
  rw [filled, filled, Array.getElem?_append, Array.getElem?_append, Array.size_push, Array.getElem?_push,
    Array.getElem?_replicate, Array.getElem?_replicate]
  rcases Nat.lt_trichotomy j slots.size with hj | rfl | hj
  · rw [if_pos (by omega), if_neg (by omega), if_neg (by omega), if_pos hj]
  · rw [if_pos (by omega), if_pos rfl, if_pos rfl]
  · have hshift : j - (slots.size + 1) < flashSize - (slots.size + 1) ↔ j - slots.size < flashSize - slots.size := by
      omega
    rw [if_neg (show ¬ j < slots.size + 1 by omega), if_neg (show ¬ j = slots.size by omega),
      if_neg (show ¬ j < slots.size by omega)]
    simp only [hshift]

theorem image_loads {l l' r : Layout} {image : Image} (hr : l.resolve = .ok r) (himage : r.image = .ok image)
    {name : String} {index n col : Nat} (hname : image.symbols.label? name = some index)
    (hslots : l'.slots = l.slots.push (some ⟨.LDI, ⟨n, 1⟩, (loadTokens n).tail ++ closedName n name col, n⟩))
    (hbytes : l'.bytes = l.bytes) (hsymbols : l'.symbols = l.symbols) (hroom : image.codeLength < flashSize) :
    ∃ r' image', l'.resolve = .ok r' ∧ r'.image = .ok image' ∧ image.Loads image' index := by
  obtain ⟨slots, hall, hprogram, hlength, hsymbolsImage, -, hdata, hdataEnd⟩ := image_slots hr himage
  obtain ⟨load, hload, hmnemonic, hoperands⟩ := instruction_load n index ⟨n, 1⟩
  rw [hsymbolsImage] at hname
  rw [hlength] at hroom
  have hlast : Resolves l'.symbols
      (some ⟨.LDI, ⟨n, 1⟩, (loadTokens n).tail ++ closedName n name col, n⟩, 0 + l.slots.toList.length) (.inst load) := by
    rw [hsymbols]
    exact ⟨loadedTokens n index, load, resolveArgs_closed hname n col, hload, rfl⟩
  have hall' : List.Forall₂ (Resolves l'.symbols) l'.slots.toList.zipIdx (slots ++ [.inst load]) := by
    rw [hslots, Array.toList_push, List.zipIdx_append]
    refine List.rel_append ?_ (.cons hlast .nil)
    rw [hsymbols]
    exact hall
  obtain ⟨r', hr', himage'⟩ := image_of_resolves hall'
  have hpush : (slots ++ [Slot.inst load]).toArray = slots.toArray.push (.inst load) := by simp
  have hsize : slots.toArray.size < flashSize := hroom
  have hget (j : Nat) := getElem?_filled_push hsize (.inst load) j
  refine ⟨r', _, hr', himage', ?_, ⟨load, ?_, hmnemonic, hoperands⟩, fun j hj => ?_, ?_, ?_, ?_⟩
  · rw [hlength]
    exact List.length_append
  · dsimp only
    rw [hpush, hget, hlength]
    exact if_pos rfl
  · dsimp only
    rw [hpush, hget, hprogram]
    exact if_neg (by rw [hlength] at hj; exact hj)
  · exact hsymbols.trans hsymbolsImage.symm
  · rw [hdata]
    dsimp only
    rw [hbytes]
  · rw [hdataEnd]
    dsimp only
    rw [hbytes]

/-! ## Labels in use -/

theorem isLoneDir_below (k : Nat) (line : Line) (d : Directive) : (line.below k).isLoneDir d = line.isLoneDir d := by
  obtain ⟨n, tokens⟩ := line
  match tokens with
  | [] | [_] | _ :: _ :: _ => rfl

/-- What the assembly of a source with the load goes through: the layout of the source has a slot more. -/
theorem exists_layout {source front back : String} {wanted : Option Nat} {image : Image}
    (h : assemble source wanted = .ok image) (hends : EndsIn source front back) (hroom : image.codeLength < flashSize)
    {name : String} (hname : IsName name.toList) :
    ∃ (l r : Layout) (n : Nat) (above : List Line) (last : Line), l.resolve = .ok r ∧ r.image = .ok image ∧
      (∀ lines, tokenize (withMention front back name) = .ok lines ↔
        ∃ line, Lexer.tokenizeLine n (mention name).toList = .ok line ∧ lines = above ++ [line, last]) ∧
      ∀ more, (∀ t ∈ more, t.isUnknownMnemonic = false) →
        ∃ l', layout (above ++ [⟨n, loadTokens n ++ more⟩, last]) wanted = .ok l' ∧
          l'.slots = l.slots.push (some ⟨.LDI, ⟨n, 1⟩, (loadTokens n).tail ++ more, n⟩) ∧
          l'.bytes = l.bytes ∧ l'.symbols = l.symbols := by
  obtain ⟨lines, l, r, hlines, hl, hr, himage⟩ := assemble_eq_ok_iff.1 h
  obtain ⟨rfl, last, hback⟩ := hends
  obtain ⟨above, below, habove, hbelow, rfl⟩ := tokenize_append.1 hlines
  obtain rfl := Except.ok.inj (hback.symm.trans hbelow)
  obtain ⟨n, m, htokenize⟩ := tokenize_withMention hname habove hback
  have hlone : (last.below m).isLoneDir .finish = true := by
    obtain ⟨s, -, -, hsections, -⟩ := layout_ok hl
    obtain ⟨front', last₀, heq, -, hlone⟩ := checkSections_concat hsections
    obtain ⟨rfl, rfl⟩ := List.append_singleton_inj.1 heq
    rw [isLoneDir_below] at hlone ⊢
    exact hlone
  refine ⟨l, r, n, above, last.below m, hr, himage, htokenize, fun more hmore => ?_⟩
  rw [codeLength_eq hr himage] at hroom
  have hargs : ∀ t ∈ (loadTokens n).tail ++ more, t.isUnknownMnemonic = false :=
    List.forall_mem_append.2 ⟨by simp [loadTokens, Token.isUnknownMnemonic], hmore⟩
  exact layout_append (m := .LDI) rfl rfl hargs hlone hl hroom

/-- A source with the load of a closed selection has an image with a load more. -/
theorem assemble_withMention {source front back : String} {wanted : Option Nat} {image : Image}
    (h : assemble source wanted = .ok image) (hends : EndsIn source front back) {name : String} {index : Nat}
    (hname : IsName name.toList) (hdot : '.' ∉ name.toList) (hfree : ¬ StartsReserved name.toList)
    (hlabel : image.symbols.label? name = some index) (hroom : image.codeLength < flashSize) :
    ∃ image', assemble (withMention front back name) wanted = .ok image' ∧ image.Loads image' index := by
  obtain ⟨l, r, n, above, last, hr, himage, htokenize, hlayout⟩ := exists_layout h hends hroom hname
  obtain ⟨col, hline⟩ := tokenizeLine_word hname hdot hfree n
  have hknown : ∀ t ∈ closedName n name col, t.isUnknownMnemonic = false := by
    simp [closedName, Token.isUnknownMnemonic]
  obtain ⟨l', hl', hslots, hbytes, hsymbols⟩ := hlayout _ hknown
  obtain ⟨r', image', hr', himage', hloads⟩ := image_loads hr himage hlabel hslots hbytes hsymbols hroom
  exact ⟨image', assemble_eq_ok_iff.2 ⟨_, l', r', (htokenize _).2 ⟨_, hline, rfl⟩, hl', hr', himage'⟩, hloads⟩

/-- A source with the load of an open selection has none. -/
theorem assemble_withMention_dotted {source front back : String} {wanted : Option Nat} {image image' : Image}
    (h : assemble source wanted = .ok image) (hends : EndsIn source front back) {name : String}
    (hname : IsName name.toList) (hdot : '.' ∈ name.toList) (hroom : image.codeLength < flashSize) :
    assemble (withMention front back name) wanted ≠ .ok image' := by
  intro h'
  obtain ⟨l, r, n, above, last, hr, himage, htokenize, hlayout⟩ := exists_layout h hends hroom hname
  obtain ⟨lines, l', r', hlines, hl', hr', himage'⟩ := assemble_eq_ok_iff.1 h'
  obtain ⟨line, hline, rfl⟩ := (htokenize lines).1 hlines
  obtain ⟨more, rfl⟩ := tokenizeLine_load hline
  obtain ⟨more', heq, hopen⟩ := tokenizeLine_dotted hname hdot hline
  obtain rfl := List.append_cancel_left heq
  have hknown : ∀ t ∈ more, t.isUnknownMnemonic = false := by
    obtain ⟨s, -, -, -, hmnemonics, -⟩ := layout_ok hl'
    intro t ht
    exact checkMnemonics_eq_ok_iff.1 hmnemonics ⟨n, loadTokens n ++ more⟩ (by simp) t (List.mem_append_right _ ht)
  obtain ⟨l'', hl'', hslots, -, -⟩ := hlayout more hknown
  obtain rfl := Except.ok.inj (hl'.symm.trans hl'')
  have hslot : l'.slots[l.slots.size]? = some (some ⟨.LDI, ⟨n, 1⟩, (loadTokens n).tail ++ more, n⟩) := by
    rw [hslots, Array.getElem?_push, if_pos rfl]
  obtain ⟨slot, -, args, i, hargs, -⟩ := resolves_of_getElem? hr' himage' hslot
  exact resolveArgs_open hopen hargs

/-- A label whose name starts with no reserved word can be used in a load at the end of the text section exactly where
its name has no dot; the load is then that of the low byte of its index. -/
theorem mention_assembles_iff {source : String} {wanted : Option Nat} {image : Image}
    (h : assemble source wanted = .ok image) {name : String} {index : Nat}
    (hname : Lexer.label (name.toList ++ [':']) = some (name.toList.length + 1)) (hfree : ¬ StartsReserved name.toList)
    (hlabel : image.symbols.label? name = some index) (hroom : image.codeLength < flashSize) :
    (∃ front back, EndsIn source front back) ∧ ∀ front back, EndsIn source front back →
      ((∃ image', assemble (withMention front back name) wanted = .ok image') ↔ '.' ∉ name.toList) ∧
      ∀ image', assemble (withMention front back name) wanted = .ok image' → image.Loads image' index := by
  have hshape := isName_of_label hname
  constructor
  · obtain ⟨lines, l, -, hlines, hl, -⟩ := assemble_eq_ok_iff.1 h
    exact exists_endsIn hlines hl
  · intro front back hends
    have hdotless {image' : Image} (h' : assemble (withMention front back name) wanted = .ok image') :
        '.' ∉ name.toList := fun hdot => assemble_withMention_dotted h hends hshape hdot hroom h'
    refine ⟨⟨fun ⟨image', h'⟩ => hdotless h', fun hdot => ?_⟩, fun image' h' => ?_⟩
    · obtain ⟨image', h', -⟩ := assemble_withMention h hends hshape hdot hfree hlabel hroom
      exact ⟨image', h'⟩
    · obtain ⟨image'', h'', hloads⟩ := assemble_withMention h hends hshape (hdotless h') hfree hlabel hroom
      obtain rfl := Except.ok.inj (h'.symm.trans h'')
      exact hloads

/-- A program with the label `lo8x`, without its last line. -/
def wordSource : String := ".section .text\n.global main\nmain: NOP\nlo8x: NOP"

theorem mention_assembles_iff_word : ∃ image image', assemble (wordSource ++ "\n" ++ ".end") none = .ok image ∧
    assemble (withMention wordSource ".end" "lo8x") none = .ok image' ∧ image.Loads image' 1 := by
  have hassemble : (match assemble (wordSource ++ "\n" ++ ".end") none with
      | .ok image => image.symbols.label? "lo8x" == some 1 && image.codeLength == 2
      | .error _ => false) = true := by decide +kernel
  have hname : Lexer.label ("lo8x".toList ++ [':']) = some ("lo8x".toList.length + 1) := by decide +kernel
  have hmatch : firstMatch? "lo8x".toList = some (some .ref, 4) := by decide +kernel
  have hfree := not_startsReserved hmatch (by decide)
  have hends : EndsIn (wordSource ++ "\n" ++ ".end") wordSource ".end" :=
    ⟨rfl, ⟨1, [⟨.dir .finish, ".end", ⟨1, 1⟩⟩]⟩, by decide +kernel⟩
  split at hassemble
  · next image himage =>
    obtain ⟨hlabel, hlength⟩ := Bool.and_eq_true_iff.1 hassemble
    have hroom : image.codeLength < flashSize := by
      rw [eq_of_beq hlength]
      decide
    obtain ⟨hiff, hloads⟩ := (mention_assembles_iff himage hname hfree (eq_of_beq hlabel) hroom).2 _ _ hends
    obtain ⟨image', himage'⟩ := hiff.2 (by decide +kernel)
    exact ⟨image, image', himage, himage', hloads image' himage'⟩
  · cases hassemble

/-- A program with the label `a.b`, without its last line. -/
def dottedSource : String := ".section .text\n.global main\nmain: NOP\na.b: NOP"

/-- Names with dots are names of labels, but cannot be used where a parenthesis follows. -/
theorem mention_dotted : ∃ image, assemble (dottedSource ++ "\n" ++ ".end") none = .ok image ∧
    Lexer.label ("a.b".toList ++ [':']) = some ("a.b".toList.length + 1) ∧ ¬ StartsReserved "a.b".toList ∧
    image.symbols.label? "a.b" = some 1 ∧ image.codeLength < flashSize ∧
    ∀ image', assemble (withMention dottedSource ".end" "a.b") none ≠ .ok image' := by
  have hassemble : (match assemble (dottedSource ++ "\n" ++ ".end") none with
      | .ok image => image.symbols.label? "a.b" == some 1 && image.codeLength == 2
      | .error _ => false) = true := by decide +kernel
  have hmatch : firstMatch? "a.b".toList = some (some .ref, 1) := by decide +kernel
  have hfree := not_startsReserved hmatch (by decide)
  have hfails : (assemble (withMention dottedSource ".end" "a.b") none).isOk = false := by decide +kernel
  split at hassemble
  · next image himage =>
    obtain ⟨hlabel, hlength⟩ := Bool.and_eq_true_iff.1 hassemble
    have hroom : image.codeLength < flashSize := by
      rw [eq_of_beq hlength]
      decide
    refine ⟨image, himage, by decide +kernel, hfree, eq_of_beq hlabel, hroom, fun image' h => ?_⟩
    rw [h] at hfails
    cases hfails
  · cases hassemble

end Avr
