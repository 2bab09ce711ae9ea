import Mathlib.Data.Prod.Lex
import ScriptKit.Proofs.Token.Tokenization

/-!
The order of places in a text, by lines and then by columns. Every character leads to a later place, so
the tokens of a text stand at places that go up.
-/
namespace ScriptKit

namespace Position

instance : PartialOrder Position :=
  PartialOrder.lift (fun position => toLex (position.line, position.column)) fun one two same => by
    cases one
    cases two
    cases same
    rfl

private theorem lt_iff {one two : Position} :
    one < two ↔ one.line < two.line ∨ one.line = two.line ∧ one.column < two.column :=
  Prod.Lex.toLex_lt_toLex

private theorem lt_next (position : Position) (char : Char) : position < position.next char := by
  unfold next
  split
  · exact lt_iff.mpr (.inl (Nat.lt_succ_self _))
  · exact lt_iff.mpr (.inr ⟨rfl, Nat.lt_succ_self _⟩)

private theorem advance_append (position : Position) (text more : List Char) :
    position.advance (text ++ more) = (position.advance text).advance more :=
  List.foldl_append

private theorem le_advance (position : Position) (text : List Char) :
    position ≤ position.advance text := by
  induction text generalizing position with
  | nil => exact le_refl _
  | cons char text ih =>
    exact (position.lt_next char).le.trans (ih _)

private theorem lt_advance (position : Position) {text : List Char} (nonempty : text ≠ []) :
    position < position.advance text := by
  cases text with
  | nil => exact absurd rfl nonempty
  | cons char text => exact (position.lt_next char).trans_le (le_advance _ text)

end Position

/-- The places of tokens. -/
def placesOf (tokens : List Token) : List Position := tokens.map Token.position

@[simp] theorem placesOf_cons (token : Token) (tokens : List Token) :
    placesOf (token :: tokens) = token.position :: placesOf tokens := rfl

theorem tokensFrom_ascends {position : Position} (success : tokensFrom position source = .ok stream) :
    (placesOf stream.tokens).Pairwise (· < ·) ∧
      ∀ place ∈ placesOf stream.tokens, position ≤ place := by
  induction bound : source.length using Nat.strongRecOn generalizing position source stream with
  | _ length ih =>
  subst bound
  obtain ⟨gap, rest, rfl, between, solid⟩ := exists_gap source
  rw [tokensFrom_passed position between solid] at success
  have passed := position.le_advance gap
  cases rest with
  | nil =>
    obtain rfl := Except.ok.inj success
    exact ⟨.nil, List.forall_mem_nil _⟩
  | cons char rest =>
    cases found : terminalAt? (char :: rest) with
    | none =>
      rw [found] at success
      cases success
    | some first =>
      obtain ⟨terminal, length⟩ := first
      simp only [found] at success
      obtain ⟨lexeme, _, success⟩ := bind_eq_ok.mp success
      obtain ⟨following, others, success⟩ := bind_eq_ok.mp success
      obtain rfl := Except.ok.inj success
      have positive := terminalAt?_length_pos found
      have shorter : ((char :: rest).drop length).length < (gap ++ char :: rest).length := by
        rw [List.length_drop, List.length_append, List.length_cons]
        omega
      obtain ⟨ascending, later⟩ := ih _ shorter others rfl
      have longer : position.advance gap < position.advance (gap ++ (char :: rest).take length) := by
        rw [Position.advance_append]
        refine Position.lt_advance _ fun none => ?_
        rcases List.take_eq_nil_iff.mp none with none | none
        · omega
        · cases none
      refine ⟨List.pairwise_cons.mpr ⟨?_, ascending⟩, List.forall_mem_cons.mpr ⟨passed, ?_⟩⟩
      · intro place member
        exact longer.trans_le (later place member)
      · intro place member
        exact passed.trans (longer.le.trans (later place member))

end ScriptKit
