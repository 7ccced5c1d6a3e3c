/-!
What a run gives. A run takes its inputs one after another, and each step may give some of what is
gathered.
-/

namespace PacedStream
set_option autoImplicit false

variable {State Input Output : Type} (step : State → Input → State)
  (gives : State → Input → List Output)

def gather (s : State) : List Input → List Output
  | [] => []
  | i :: rest => gives s i ++ gather (step s i) rest

theorem gather_append (s : State) (before after : List Input) :
    gather step gives s (before ++ after) =
      gather step gives s before ++ gather step gives (before.foldl step s) after := by
  induction before generalizing s with
  | nil => rfl
  | cons i rest ih =>
    rw [List.cons_append, gather, gather, ih, List.append_assoc]
    rfl

end PacedStream
