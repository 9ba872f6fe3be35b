import Mathlib.Data.List.Basic

/-- Every element of a list satisfies `P`, together with what follows it. -/
def Followed {α : Type*} (P : α → List α → Prop) : List α → Prop
  | [] => True
  | a :: after => P a after ∧ Followed P after

namespace Followed
variable {α : Type*} {P Q : α → List α → Prop} {list more : List α}

theorem append (followed : Followed P list)
    (keeps : ∀ a ∈ list, ∀ after, P a after → Q a (after ++ more)) (tail : Followed Q more) :
    Followed Q (list ++ more) := by
  induction list with
  | nil => exact tail
  | cons a list ih =>
    exact ⟨keeps a (List.mem_cons_self ..) _ followed.1,
      ih followed.2 fun b member => keeps b (List.mem_cons_of_mem _ member)⟩

theorem imp (followed : Followed P list) (keeps : ∀ a ∈ list, ∀ after, P a after → Q a after) :
    Followed Q list := by
  rw [← List.append_nil list]
  refine followed.append (fun a member after holds => ?_) trivial
  rw [List.append_nil]
  exact keeps a member after holds

theorem of_forall (all : ∀ a ∈ list, ∀ after, P a after) : Followed P list := by
  induction list with
  | nil => trivial
  | cons a list ih =>
    exact ⟨all a (List.mem_cons_self ..) _, ih fun b member => all b (List.mem_cons_of_mem _ member)⟩

theorem of_mem {a : α} (followed : Followed P list) (member : a ∈ list) : ∃ after, P a after := by
  induction list with
  | nil => cases member
  | cons b list ih =>
    rcases List.mem_cons.mp member with rfl | later
    · exact ⟨list, followed.1⟩
    · exact ih followed.2 later

end Followed
