import Compositor.Proofs.Engine.Nesting

/-!
# How a loop learns of the end of its group

The commands in a group are executed until the group is closed. Whoever executes them may register a callback with the
group, which is told once, when the group is closed (`Engine.hasClosed`), or look at the number of open groups, as
`executeWhile` does. Both come to the same (`execute_eq_untilClosed`): at the time of the test the group is the innermost
one which has been closed, if it has, since no command closes more than the group in which it is executed, and none closes a
group and opens another.
-/

namespace Compositor

namespace Engine

/-- Groups which have been opened and closed since another state, the latest first. -/
def movesSince (e e' : Engine) : List TraceEntry := e'.moves.take (e'.moves.length - e.moves.length)

/-- The innermost group of the first state has been closed in the meantime: at some point more groups had been closed than
opened. A callback which had been registered with the group would have been told then. -/
def hasClosed (e e' : Engine) : Bool := !StaysOpen (e.movesSince e')

variable {e e' : Engine}

theorem movesSince_eq {new : List TraceEntry} (h : e'.moves = new ++ e.moves) : e.movesSince e' = new := by
  simp [movesSince, h]

/-- **Such a callback tells what the number of open groups tells.** -/
theorem Nests.hasClosed_eq (h : e.Nests e') (hfollows : e.Follows e') :
    e.hasClosed e' = Decidable.decide (e'.context.depth < e.context.depth) := by
  rw [Bool.eq_iff_iff, decide_eq_true_eq, hasClosed, Bool.not_eq_true', decide_eq_false_iff_not]
  rcases h with hwithin | hleaves
  · have hdepth := hwithin.depth_le hfollows
    obtain ⟨new, hmoves, hnew⟩ := hwithin
    rw [movesSince_eq hmoves]
    exact iff_of_false (not_not.2 hnew) (Nat.not_lt.2 hdepth)
  · have hdepth := hleaves.depth_eq hfollows
    obtain ⟨inside, hmoves, -, hbalanced⟩ := hleaves
    rw [movesSince_eq (hmoves.trans (List.cons_append ..).symm)]
    refine iff_of_true (fun hopen => ?_) (by omega)
    have hcount := hopen _ List.suffix_rfl
    rw [List.count_cons_self, List.count_cons_of_ne (by decide)] at hcount
    omega

end Engine

section Loops

variable {m : Machine} {e e₀ : Engine}

/-- Commands are executed until the innermost group of a state has been closed. -/
def executeUntilClosed (m : Machine) (e₀ : Engine) : Action Bool :=
  iterate (fun _ => executeTurn m e₀.hasClosed) m.fuel ()

/-- A turn depends on what the test says in its own state only. -/
theorem executeTurn_congr {isOver isOver' : Engine → Bool} (h : isOver e = isOver' e) :
    executeTurn m isOver e = executeTurn m isOver' e := by
  unfold executeTurn
  rw [Proc.get_bind, Proc.get_bind, h]

theorem iterate_untilClosed {n : Nat} (hencloses : (machine n).Encloses) (hnests : e₀.Nests e) (hfollows : e₀.Follows e)
    (fuel : Nat) :
    iterate (fun _ => executeStep (machine n) e₀.context.depth) fuel () e =
      iterate (fun _ => executeTurn (machine n) e₀.hasClosed) fuel () e := by
  -- each turn leaves at most the group of the loop, so that the tests agree in the next turn as well
  induction fuel generalizing e with
  | zero => rfl
  | succ fuel ih =>
    have hturn := encloses_turn hencloses hnests hfollows
    have hsame : executeTurn (machine n) e₀.hasClosed e = executeStep (machine n) e₀.context.depth e :=
      executeTurn_congr (hnests.hasClosed_eq hfollows)
    rw [iterate, iterate]
    cases h : executeStep (machine n) e₀.context.depth e with
    | error i e₁ => rw [Proc.bind_error h, Proc.bind_error (hsame.trans h)]
    | ok turn e₁ =>
      rw [h] at hturn
      rw [Proc.bind_ok h, Proc.bind_ok (hsame.trans h)]
      cases turn with
      | done ended => rfl
      | again =>
        have hmeets : Meets (.command False) (executeStep (machine n) e₀.context.depth) fun _ => True :=
          meets_executeStep (machine_sound n) rfl _
        exact ih hturn (hfollows.trans ((hmeets e False.elim).ok h).1.follows)

/-- **Commands are executed until the group is closed**, whether the loop asks for the number of open groups or a callback
tells it. -/
theorem execute_eq_untilClosed (n : Nat) (e : Engine) :
    (machine (n + 1)).execute e.context.depth e = executeUntilClosed (machine n) e e :=
  iterate_untilClosed (machine_encloses n) (.inl (.of_moves rfl)) (.of_eq rfl rfl) _

/-- The loop of a whole run has no group to wait for. -/
theorem executeWhile_zero : executeWhile m 0 = iterate (fun _ => executeTurn m fun _ => false) m.fuel () := by
  have hnever : (fun e : Engine => Decidable.decide (e.context.depth < 0)) = fun _ => false := by simp
  simp only [executeWhile, executeStep, hnever]

end Loops

end Compositor
