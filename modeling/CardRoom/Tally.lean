/-! # Tallies

The tally of some whole numbers is their sum. Unlike a sum of chips it is never cut off, so
rules about amounts are stated with it.
-/

namespace CardRoom

def tally : List Nat → Nat
  | [] => 0
  | n :: ns => n + tally ns

@[simp] theorem tally_nil : tally [] = 0 := rfl

@[simp] theorem tally_cons (n : Nat) (ns : List Nat) : tally (n :: ns) = n + tally ns := rfl

@[simp] theorem tally_append (ns ms : List Nat) : tally (ns ++ ms) = tally ns + tally ms := by
  induction ns with
  | nil => simp
  | cons n ns ih => simp [ih, Nat.add_assoc]

end CardRoom
