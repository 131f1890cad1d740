import ScreenPreview.Proofs.Stream.Section

/-!
Moves of a pool, and the locks of its calls.

No lock is ever held by two calls, so what a call holds is out of reach for the sections of all the
others until it lets go.
-/
namespace ScreenPreview.Stream

/-! ### Moves -/

theorem Control.apply_keeps (now : Int) (f : Feed) (change : Control) :
    (change.apply now f).output = f.output ∧ (change.apply now f).lastPicture = f.lastPicture ∧
      (change.apply now f).outlet.buffer = f.outlet.buffer ∧
      (change.needs = none → (change.apply now f).outlet = f.outlet) := by
  cases change with
  | partsOnly on => exact ⟨rfl, rfl, rfl, by simp [Control.needs]⟩
  | _ => exact ⟨rfl, rfl, rfl, fun _ => rfl⟩

namespace Pool

variable {ω : Type} {sink : Sink ω} {p : Pool ω}

theorem free_iff {lock : Option Call.Lock} :
    p.free lock = true ↔ ∀ c ∈ p.calls, ∀ taken ∈ lock, taken ∉ c.holds := by
  simp [free, Option.all_eq_true]

theorem step_start (sink : Sink ω) (p : Pool ω) (now : Int) (request : Request) :
    p.step sink (.start now request) =
      { feed := (request.enter now p.feed).2, world := p.world,
        calls := p.calls ++ [(request.enter now p.feed).1],
        log := ((request.enter now p.feed).1.claims ++ [Event.asked request]).map
          (p.calls.length, ·) ++ p.log } := rfl

theorem step_advance (sink : Sink ω) (p : Pool ω) (now : Int) (number : Nat) :
    p.step sink (.advance now number) = p ∨
      ∃ c d events feed world, p.calls[number]? = some c ∧ p.free c.needs = true ∧
        Call.Section sink c p.feed events d feed ∧
        p.step sink (.advance now number) =
          { feed, world, calls := p.calls.set number d,
            log := events.map (number, ·) ++ p.log } := by
  cases made : p.calls[number]? with
  | none => exact Or.inl (by simp [step, made])
  | some c =>
    cases free : p.free c.needs with
    | false => exact Or.inl (by simp [step, made, free])
    | true =>
      cases taken : c.step sink.watched now p.feed (p.world, []) with
      | mk d rest =>
        obtain ⟨feed, world, seen⟩ := rest
        refine Or.inr ⟨c, d, _, feed, world, rfl, free, Call.section_step taken, ?_⟩
        simp only [step, made, free, taken, if_true]

theorem calls_append {calls : List Call} {number : Nat} {c d : Call}
    (made : (calls ++ [d])[number]? = some c) :
    calls[number]? = some c ∨ number = calls.length ∧ c = d := by
  by_cases earlier : number < calls.length
  · rw [List.getElem?_append_left earlier] at made
    exact Or.inl made
  · rw [List.getElem?_append_right (by omega), List.getElem?_singleton] at made
    split at made
    · exact Or.inr ⟨by omega, (Option.some.inj made).symm⟩
    · cases made

theorem calls_set {calls : List Call} {number other : Nat} {c d : Call}
    (made : (calls.set number d)[other]? = some c) :
    (other = number ∧ c = d) ∨ (other ≠ number ∧ calls[other]? = some c) := by
  rw [List.getElem?_set] at made
  split at made
  · split at made
    · exact Or.inl ⟨by omega, (Option.some.inj made).symm⟩
    · cases made
  · exact Or.inr ⟨by omega, made⟩

theorem step_control (sink : Sink ω) (p : Pool ω) (now : Int) (change : Control) :
    p.step sink (.control now change) = p ∨
      p.free change.needs = true ∧
        p.step sink (.control now change) = { p with feed := change.apply now p.feed } := by
  cases free : p.free change.needs with
  | false => exact Or.inl (by simp [step, free])
  | true => exact Or.inr ⟨rfl, by simp [step, free]⟩

theorem log_step (sink : Sink ω) (p : Pool ω) (move : Move ω) :
    p.log <:+ (p.step sink move).log := by
  cases move with
  | start now request => exact List.suffix_append _ _
  | advance now number =>
    rcases p.step_advance sink now number with same | ⟨_, _, _, _, _, -, -, -, taken⟩
    · simp only [same, List.suffix_rfl]
    · rw [taken]
      exact List.suffix_append _ _
  | control now change =>
    rcases p.step_control sink now change with same | ⟨-, changed⟩
    · simp only [same, List.suffix_rfl]
    · simp only [changed, List.suffix_rfl]
  | world world => exact List.suffix_rfl

theorem log_run (sink : Sink ω) (p : Pool ω) (moves : List (Move ω)) :
    p.log <:+ (p.run sink moves).log := by
  induction moves generalizing p with
  | nil => exact List.suffix_rfl
  | cons move rest ih => exact (p.log_step sink move).trans (ih _)

theorem length_calls_step (sink : Sink ω) (p : Pool ω) (move : Move ω) :
    p.calls.length ≤ (p.step sink move).calls.length := by
  cases move with
  | start now request =>
    rw [step_start, List.length_append]
    exact Nat.le_add_right _ _
  | advance now number =>
    rcases p.step_advance sink now number with same | ⟨_, _, _, _, _, -, -, -, step⟩
    · exact Nat.le_of_eq (congrArg (·.calls.length) same).symm
    · exact Nat.le_of_eq (by rw [step, List.length_set])
  | control now change =>
    rcases p.step_control sink now change with same | ⟨-, step⟩
    · exact Nat.le_of_eq (congrArg (·.calls.length) same).symm
    · exact Nat.le_of_eq (congrArg (·.calls.length) step).symm
  | world world => exact Nat.le_refl _

/-! ### Locks -/

/-- No lock is held by two calls. -/
def Exclusive (p : Pool ω) : Prop :=
  ∀ (lock : Call.Lock) (number other : Nat) (c d : Call), p.calls[number]? = some c →
    p.calls[other]? = some d → lock ∈ c.holds → lock ∈ d.holds → number = other

theorem Exclusive.apart (exclusive : p.Exclusive) {number other : Nat} {c d : Call}
    (made : p.calls[number]? = some c) (free : p.free c.needs = true)
    (other_made : p.calls[other]? = some d) (differ : other ≠ number) {lock : Call.Lock}
    (held : lock ∈ d.holds) : ¬ c.Uses lock := by
  rintro (holds | needs)
  · exact differ (exclusive lock other number d c other_made made held holds)
  · exact free_iff.mp free d (List.mem_of_getElem? other_made) lock needs held

theorem outlet_control (now : Int) {change : Control} (free : p.free change.needs = true)
    {number : Nat} {c : Call} (made : p.calls[number]? = some c) (held : .outlet ∈ c.holds) :
    (change.apply now p.feed).outlet = p.feed.outlet := by
  cases change with
  | partsOnly on => exact absurd held (free_iff.mp free c (List.mem_of_getElem? made) _ rfl)
  | _ => rfl

theorem holds_of_opens {request : Request} {c : Call} (opens : request.Opens c) : c.holds = [] := by
  cases opens <;> rfl

theorem exclusive_step (exclusive : p.Exclusive) (move : Move ω) :
    (p.step sink move).Exclusive := by
  cases move with
  | start now request =>
    rw [step_start]
    intro lock number other c d made other_made held other_held
    have none := holds_of_opens (request.opens_enter now p.feed)
    rcases calls_append made with earlier | ⟨-, rfl⟩
    · rcases calls_append other_made with other_earlier | ⟨-, rfl⟩
      · exact exclusive lock number other c d earlier other_earlier held other_held
      · simp [none] at other_held
    · simp [none] at held
  | advance now number =>
    rcases p.step_advance sink now number with same | ⟨c, d, _, _, _, made, free, taken, step⟩
    · rwa [same]
    · rw [step]
      intro lock i j a b a_made b_made a_held b_held
      rcases calls_set a_made with ⟨rfl, rfl⟩ | ⟨a_other, a_before⟩
      · rcases calls_set b_made with ⟨rfl, rfl⟩ | ⟨b_other, b_before⟩
        · rfl
        · have apart := exclusive.apart made free b_before b_other b_held
          exact absurd (taken.uses_of_holds a_held) apart
      · rcases calls_set b_made with ⟨rfl, rfl⟩ | ⟨b_other, b_before⟩
        · have apart := exclusive.apart made free a_before a_other a_held
          exact absurd (taken.uses_of_holds b_held) apart
        · exact exclusive lock i j a b a_before b_before a_held b_held
  | control now change =>
    rcases p.step_control sink now change with same | ⟨-, step⟩
    · rwa [same]
    · rw [step]
      exact exclusive
  | world world => exact exclusive

end Pool

end ScreenPreview.Stream
