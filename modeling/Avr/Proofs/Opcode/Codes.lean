import Mathlib.Data.List.Pairwise
import Avr.Proofs.Opcode.Operands
import Avr.Proofs.Opcode.Template

/-!
# The table of opcodes

* `Code` : a mnemonic, a pointer access if it has one, and the template of its opcode;
* `codes` : the codes of all instructions that are not another name for one of them; `codes_clash` : no two of them
  have an opcode in common;
* `Mnemonic.Checked` : what is decided about the characters of a template, one mnemonic at a time;
* `ArgSpec.fitsField`, `fieldsFit` : a field is wide enough for all operands of its place.
-/

namespace Avr

open Catalog

/-! ## The table of codes -/

/-- The template for the opcodes of a mnemonic, for one sort of pointer access if the mnemonic has several. -/
structure Code where
  mnemonic : Mnemonic
  access : Option (Pointer × PointerMode)
  template : String
deriving DecidableEq

/-- The pointer accesses that only `LD` and `ST` have. -/
def movingAccesses : List (Pointer × PointerMode) :=
  [(.X, .plain), (.X, .postInc), (.X, .preDec), (.Y, .postInc), (.Y, .preDec), (.Z, .postInc), (.Z, .preDec)]

/-- The pointer accesses with displacement. -/
def displacedAccesses : List (Pointer × PointerMode) := [(.Y, .disp 0), (.Z, .disp 0)]

/-- Whether a mnemonic is another name for a special case of an instruction. -/
def Mnemonic.isAlias (m : Mnemonic) : Bool :=
  m.branchCondition?.isSome || m.flagEffect?.isSome || [SER, SBR, CBR, CLR, LSL, ROL, TST].contains m

def Mnemonic.codes (m : Mnemonic) : List Code :=
  if m.isAlias then []
  else match m.entry.encoding, m with
    | .template _ bits, _ => [⟨m, none, bits⟩]
    | .irregular, .ADIW => [⟨.ADIW, none, "10010110KKddKKKK"⟩]
    | .irregular, .SBIW => [⟨.SBIW, none, "10010111KKddKKKK"⟩]
    | .irregular, .MOVW => [⟨.MOVW, none, "00000001ddddrrrr"⟩]
    | .irregular, .LD => movingAccesses.map fun (p, mode) => ⟨.LD, some (p, mode), loadTemplate p mode⟩
    | .irregular, .LDD => displacedAccesses.map fun (p, mode) => ⟨.LDD, some (p, mode), loadTemplate p mode⟩
    | .irregular, .ST => movingAccesses.map fun (p, mode) => ⟨.ST, some (p, mode), storeTemplate p mode⟩
    | .irregular, .STD => displacedAccesses.map fun (p, mode) => ⟨.STD, some (p, mode), storeTemplate p mode⟩
    | .irregular, _ => []

def codes : List Code := Mnemonic.all.flatMap Mnemonic.codes

def Code.Written (c : Code) (cs : List Char) : Prop := c.template = String.ofList cs

theorem pairwise_of_written {codes : List Code} {css : List (List Char)} (h : List.Forall₂ Code.Written codes css)
    (hclash : css.Pairwise fun cs cs' => clash cs cs' = true) :
    codes.Pairwise fun a b => clash a.template.toList b.template.toList = true := by
  have hmap : codes.map (fun c => c.template.toList) = css := by
    induction h with
    | nil => rfl
    | cons hc _ ih => rw [List.map_cons, hc, String.toList_ofList, ih (List.Pairwise.of_cons hclash)]
  rw [← hmap, List.pairwise_map] at hclash
  exact hclash

theorem codes_pairwise : codes.Pairwise fun a b => clash a.template.toList b.template.toList = true := by
  apply pairwise_of_written
  -- the characters come from the literals, so that `toList` is never run
  · repeat' first | apply List.Forall₂.cons (a := Code.mk _ _ _) (rfl : _ = String.ofList _) | exact .nil
  · decide +kernel

/-- No opcode fits two codes, nor do an opcode and a longer one that starts with it. -/
theorem codes_clash {a b : Code} (ha : a ∈ codes) (hb : b ∈ codes) {bits bits' : List Char}
    (hfa : Fits a.template.toList bits) (hfb : Fits b.template.toList bits') (h : bits <+: bits') : a = b := by
  by_contra hne
  have hsymm : Std.Symm fun a b : Code => clash a.template.toList b.template.toList = true :=
    ⟨fun x y h => (clash_comm _ _).trans h⟩
  have hclash := codes_pairwise.forall ha hb hne
  rw [hfa.not_clash hfb h] at hclash
  cases hclash

/-! ## Checks of templates -/

/-- The template of a mnemonic, if it has one, passes a check of its operand places, field letters and digits. -/
def Mnemonic.Checked (check : List ArgSpec → List Char → List Char → Bool) (m : Mnemonic) : Prop :=
  ∀ fields bits, m.entry.encoding = .template fields bits → check m.entry.args fields bits.toList = true

variable {m : Mnemonic} {check : List ArgSpec → List Char → List Char → Bool}

theorem checked_of_written {letters bits : String} {fields cs : List Char}
    (hm : m.entry.encoding = .template letters.toList bits) (hletters : letters = String.ofList fields)
    (hbits : bits = String.ofList cs) (h : check m.entry.args fields cs = true) : m.Checked check := by
  intro fields' bits' hm'
  rw [hm, hletters, hbits, String.toList_ofList] at hm'
  cases hm'
  rw [String.toList_ofList]
  exact h

theorem checked_of_irregular (hm : m.entry.encoding = .irregular) : m.Checked check := by
  intro fields bits hm'
  rw [hm] at hm'
  cases hm'

/-! ## The width of fields -/

/-- Whether a field of `w` bits tells all operands of a place apart. -/
def Catalog.ArgSpec.fitsField (s : ArgSpec) (w : Nat) : Bool :=
  match s.kinds, s.constraint with
  | [.reg], .range low high | [.int], .range low high | [.int, .func], .range low high => decide (high - low < 2 ^ w)
  | _, _ => false

/-- Whether there is one field for each operand, wide enough for it, unless only one operand is admitted there. -/
def fieldsFit (args : List ArgSpec) (fields cs : List Char) : Bool :=
  fields.length == args.length && decide fields.Nodup && fields.all (fun c => c != '0' && c != '1') &&
    (fields.zip args).all fun (letter, s) =>
      if letter = '_' then s == Place.pointerZ else s.fitsField (cs.count letter)

theorem checked_fieldsFit (m : Mnemonic) : m.Checked fieldsFit := by
  cases m
  all_goals first
    | exact checked_of_written rfl rfl rfl rfl
    | exact checked_of_irregular rfl

end Avr
