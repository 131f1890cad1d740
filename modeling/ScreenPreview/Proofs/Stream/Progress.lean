import Mathlib.Algebra.GroupWithZero.Nat
import Mathlib.Data.List.Perm.Basic
import ScreenPreview.Proofs.Stream.Idle

/-!
Calls are never in each other's way for good.

A call that holds the outlet waits for nothing, and one that holds the encoder waits for the outlet
at most. So as long as a call is not done there is one that can go on, and whatever the calls of a
pool wait for, they can all be carried to their ends (`exists_run_allDone`). What a call has come to
is never taken back (`done_run`).
-/
namespace ScreenPreview.Stream

namespace Call

theorem of_holds_outlet {c : Call} (held : .outlet ∈ c.holds) :
    c.needs = none ∧ 0 < c.sectionsLeft := by
  cases c <;> simp_all [holds, needs, sectionsLeft]

theorem of_holds_encoder {c : Call} (held : .encoder ∈ c.holds) :
    (∀ lock ∈ c.needs, lock = .outlet) ∧ 0 < c.sectionsLeft := by
  cases c <;> simp_all [holds, needs, sectionsLeft]

end Call

namespace Pool

variable {ω : Type} {p : Pool ω}

/-- If a call is not done, one of the calls can carry out its next section. -/
theorem exists_free (busy : p.allDone = false) :
    ∃ (number : Nat) (c : Call), p.calls[number]? = some c ∧ p.free c.needs = true ∧
      0 < c.sectionsLeft := by
  have goes {c : Call} (member : c ∈ p.calls) (free : p.free c.needs = true)
      (left : 0 < c.sectionsLeft) : ∃ (number : Nat) (c : Call), p.calls[number]? = some c ∧
        p.free c.needs = true ∧ 0 < c.sectionsLeft := by
    obtain ⟨number, made⟩ := List.mem_iff_getElem?.mp member
    exact ⟨number, c, made, free, left⟩
  by_cases outlet : ∃ c ∈ p.calls, .outlet ∈ c.holds
  · obtain ⟨c, member, held⟩ := outlet
    obtain ⟨waits, left⟩ := Call.of_holds_outlet held
    exact goes member (by simp [waits, free]) left
  · by_cases encoder : ∃ c ∈ p.calls, .encoder ∈ c.holds
    · obtain ⟨c, member, held⟩ := encoder
      obtain ⟨waits, left⟩ := Call.of_holds_encoder held
      refine goes member (free_iff.mpr ?_) left
      intro d other lock needed taken
      rw [waits lock needed] at taken
      exact outlet ⟨d, other, taken⟩
    · have unlocked (c : Call) (member : c ∈ p.calls) (lock : Call.Lock) : lock ∉ c.holds := by
        cases lock with
        | encoder => exact fun held => encoder ⟨c, member, held⟩
        | outlet => exact fun held => outlet ⟨c, member, held⟩
      obtain ⟨c, member, unfinished⟩ : ∃ c ∈ p.calls, c.result? = none := by
        simpa [allDone] using busy
      refine goes member (free_iff.mpr fun d other lock _ => unlocked d other lock) ?_
      cases c <;> simp_all [Call.result?, Call.sectionsLeft]

def left (p : Pool ω) : Nat := (p.calls.map Call.sectionsLeft).sum

theorem left_advance (sink : Sink ω) (now : Int) {number : Nat} {c : Call}
    (made : p.calls[number]? = some c) (free : p.free c.needs = true)
    (unfinished : 0 < c.sectionsLeft) : (p.step sink (.advance now number)).left < p.left := by
  obtain ⟨inside, rfl⟩ := List.getElem?_eq_some_iff.mp made
  have shorter := Call.sectionsLeft_step sink.watched now p.calls[number] p.feed (p.world, [])
  have total (d : Call) : ((p.calls.set number d).map Call.sectionsLeft).sum =
      d.sectionsLeft + ((p.calls.eraseIdx number).map Call.sectionsLeft).sum :=
    ((List.set_perm_cons_eraseIdx inside d).map Call.sectionsLeft).sum_nat
  have before := total p.calls[number]
  rw [List.set_getElem_self inside] at before
  simp only [left, step, made, free, if_true, total, before]
  omega

theorem exists_run_allDone (sink : Sink ω) (p : Pool ω) (now : Int) :
    ∃ numbers : List Nat, (p.run sink (numbers.map (.advance now ·))).allDone = true := by
  generalize size : p.left = n
  induction n using Nat.strongRecOn generalizing p with
  | ind n ih =>
    cases busy : p.allDone with
    | true => exact ⟨[], busy⟩
    | false =>
      obtain ⟨number, c, made, free, unfinished⟩ := exists_free busy
      have fewer := left_advance sink now made free unfinished
      rw [size] at fewer
      obtain ⟨numbers, done⟩ := ih _ fewer (p.step sink (.advance now number)) rfl
      exact ⟨number :: numbers, done⟩

/-! ### Calls that are done -/

theorem done_step (sink : Sink ω) {number : Nat} {result : Except Failure Outcome}
    (done : p.calls[number]? = some (.done result)) (move : Move ω) :
    (p.step sink move).calls[number]? = some (.done result) := by
  have inside := (List.getElem?_eq_some_iff.mp done).1
  cases move with
  | start now request =>
    rw [step_start]
    exact (List.getElem?_append_left inside).trans done
  | advance now other =>
    rcases p.step_advance sink now other with same | ⟨c, d, _, _, _, made, -, taken, step⟩
    · rwa [same]
    · rw [step]
      by_cases own : other = number
      · subst own
        obtain rfl := Option.some.inj (made.symm.trans done)
        rw [taken.done_eq.2]
        exact List.getElem?_set_self inside
      · exact (List.getElem?_set_ne own).trans done
  | control now change =>
    rcases p.step_control sink now change with same | ⟨-, step⟩
    · rwa [same]
    · rwa [step]
  | world world => exact done

theorem done_run (sink : Sink ω) {number : Nat} {result : Except Failure Outcome}
    (done : p.calls[number]? = some (.done result)) (moves : List (Move ω)) :
    (p.run sink moves).calls[number]? = some (.done result) := by
  induction moves generalizing p with
  | nil => exact done
  | cons move rest ih => exact ih (done_step sink done move)

end Pool

end ScreenPreview.Stream
