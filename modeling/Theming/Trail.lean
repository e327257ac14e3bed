/-! Trails of labels that are followed one after the other and never twice. When the labels
come from a finite stock, a trail without repetitions comes to an end. -/

namespace Theming

abbrev Trail := List String

namespace Trail

/-- The labels of the stock that the trail has not met yet, counted with repetitions. -/
def unmet (stock : List String) (trail : Trail) : Nat :=
  (stock.filter fun label => label ∉ trail).length

/-- What is left before `label` is followed: the unmet labels of the stock, and one step more
for a label from elsewhere. -/
def ahead (stock : List String) (trail : Trail) (label : String) : Nat :=
  unmet stock trail + if label ∈ stock then 0 else 1

theorem unmet_append_le (stock : List String) (trail : Trail) (label : String) :
    unmet stock (trail ++ [label]) ≤ unmet stock trail := by
  unfold unmet
  refine (List.Sublist.length_le ?_)
  have h : stock.filter (fun l => l ∉ trail ++ [label]) =
      (stock.filter fun l => l ∉ trail).filter fun l => l ≠ label := by
    rw [List.filter_filter]
    congr 1
    funext l
    simp [and_comm]
  rw [h]
  exact List.filter_sublist

theorem unmet_append_lt {stock : List String} {trail : Trail} {label : String}
    (hs : label ∈ stock) (ht : label ∉ trail) :
    unmet stock (trail ++ [label]) < unmet stock trail := by
  unfold unmet
  have h : stock.filter (fun l => l ∉ trail ++ [label]) =
      (stock.filter fun l => l ∉ trail).filter fun l => l ≠ label := by
    rw [List.filter_filter]
    congr 1
    funext l
    simp [and_comm]
  rw [h]
  refine List.length_filter_lt_length_iff_exists.2 ⟨label, ?_, by simp⟩
  simpa using ⟨hs, ht⟩

/-- Following a label brings every next label of the stock closer to the end. -/
theorem ahead_append_lt {stock : List String} {trail : Trail} {label next : String}
    (ht : label ∉ trail) (hn : next ∈ stock) :
    ahead stock (trail ++ [label]) next < ahead stock trail label := by
  unfold ahead
  rw [if_pos hn]
  split
  · next hs => have := unmet_append_lt hs ht; omega
  · have := unmet_append_le stock trail label; omega

end Trail

end Theming
