import LineRules.Store
import Mathlib.Data.String.Basic

namespace LineRules.Store

open String in
/-- Cutting goes on behind a part that is open, with the parts before that already cut off. -/
theorem splitOnAux_slash (done piece rest : List Char) (parts : List String) :
    splitOnAux (.ofList (done ++ piece ++ rest)) "/" ⟨utf8Len done⟩
        ⟨utf8Len done + utf8Len piece⟩ 0 parts =
      parts.reverse ++ (List.splitOnPPrepend (· == '/') rest piece.reverse).map .ofList := by
  induction rest generalizing done piece parts with
  | nil =>
    have ends := (atEnd_of_valid (done ++ piece) []).mpr rfl
    have here := extract_of_valid done piece []
    rw [utf8Len_append] at ends
    rw [splitOnAux, if_pos ends, here]
    simp
  | cons c rest ih =>
    have ends := atEnd_of_valid (done ++ piece) (c :: rest)
    have got := get_of_valid (done ++ piece) (c :: rest)
    have next := next_of_valid (done ++ piece) c rest
    have here := extract_of_valid done piece (c :: rest)
    rw [utf8Len_append] at ends got next
    rw [splitOnAux, if_neg (mt ends.mp (List.cons_ne_nil c rest)), got, List.headD_cons]
    by_cases slash : c = '/'
    · subst slash
      have later := ih (done ++ piece ++ ['/']) [] (ofList piece :: parts)
      have cut : Pos.Raw.unoffsetBy ⟨utf8Len done + utf8Len piece + '/'.utf8Size⟩ ⟨1⟩ =
          ⟨utf8Len done + utf8Len piece⟩ :=
        rfl
      have whole : Pos.Raw.next "/" 0 = ⟨1⟩ := by decide
      rw [if_pos (by decide)]
      simp only [next]
      rw [if_pos (by decide), whole, cut, here]
      simpa [-ofList_append, Nat.add_assoc, List.splitOnPPrepend_cons_eq_if] using later
    · have later := ih done (piece ++ [c]) parts
      have stay : Pos.Raw.unoffsetBy ⟨utf8Len done + utf8Len piece⟩ 0 =
          ⟨utf8Len done + utf8Len piece⟩ :=
        rfl
      have other : ¬(c == Pos.Raw.get "/" 0) = true := mt (beq_iff_eq (a := c)).mp slash
      rw [if_neg other, stay, next]
      simpa [-ofList_append, Nat.add_assoc, List.splitOnPPrepend_cons_eq_if, slash] using later

theorem parts_eq (path : String) : parts path = (path.toList.splitOn '/').map .ofList := by
  simpa [parts, String.splitOn, List.splitOn] using splitOnAux_slash [] [] path.toList []

example : parts "/a//b.spec" = ["", "a", "", "b.spec"] := by
  rw [parts_eq]
  decide

end LineRules.Store
