import ScreenPreview.Stream.RateLimit

/-!
Claims on the slot of a rate limit.

A claim is given back at most once, by its own pair, and in any order. Giving one back may do
nothing, since a newer claim holds the slot, and may bring back a holder that was itself given
back before, so the holder alone does not tell which claims stand. What stands is covered by the
slot all the same (`Covers`): no standing claim is later than the holder, and every claim found
the older ones that still stand at or before its predecessor.
-/
namespace ScreenPreview.Stream.RateLimit

structure Claim where
  reserved : Int
  previous : Option Int
  deriving DecidableEq, Repr

def Claim.NotAfter (c : Claim) (holder : Option Int) : Prop := ∃ v ∈ holder, c.reserved ≤ v

/-- The slot covers the claims that stand, given newest first. -/
structure Covers (r : RateLimit) (claims : List Claim) : Prop where
  holder : ∀ c ∈ claims, c.NotAfter r.lastAccepted
  order : claims.Pairwise fun newer older => older.NotAfter newer.previous
  gap : ∀ c ∈ claims, ∀ p ∈ c.previous, p + r.spacing ≤ c.reserved

/-! ### One use of the limit -/

theorem tooSoon_eq_false_iff (r : RateLimit) (now : Int) (limited : 0 < r.spacing) :
    r.tooSoon now = false ↔ ∀ v ∈ r.lastAccepted, v + r.spacing ≤ now := by
  unfold tooSoon
  cases r.lastAccepted with
  | none => simp
  | some v =>
    rw [decide_eq_false_iff_not, elapsed]
    simp only [Option.mem_some_iff, forall_eq']
    omega

theorem reserve_eq_none_iff (r : RateLimit) (now : Int) (limited : 0 < r.spacing) :
    r.reserve now = none ↔ ∃ v ∈ r.lastAccepted, now < v + r.spacing := by
  have late := tooSoon_eq_false_iff r now limited
  cases soon : r.tooSoon now with
  | true =>
    rw [soon] at late
    simpa [reserve, soon] using late
  | false =>
    have past := late.mp soon
    simpa [reserve, soon] using past

theorem reserve_eq_some_iff {r s : RateLimit} {now : Int} {previous : Option Int}
    (limited : 0 < r.spacing) :
    r.reserve now = some (previous, s) ↔
      (∀ v ∈ r.lastAccepted, v + r.spacing ≤ now) ∧ previous = r.lastAccepted ∧
        s = r.accept now := by
  rw [← tooSoon_eq_false_iff r now limited, reserve]
  cases r.tooSoon now with
  | true => simp
  | false => simp [eq_comm]

theorem spacing_accept (r : RateLimit) (now : Int) : (r.accept now).spacing = r.spacing := rfl

theorem spacing_reserve {r s : RateLimit} {now : Int} {previous : Option Int}
    (answer : r.reserve now = some (previous, s)) : s.spacing = r.spacing := by
  unfold reserve at answer
  split at answer
  · cases answer
  · cases answer
    rfl

theorem spacing_release (r : RateLimit) (reserved : Int) (previous : Option Int) :
    (r.release reserved previous).spacing = r.spacing := by
  unfold release
  split <;> rfl

/-! ### Covered claims -/

theorem covers_nil (r : RateLimit) : Covers r [] := ⟨by simp, by simp, by simp⟩

theorem Covers.sublist {r : RateLimit} {claims kept : List Claim} (covers : Covers r claims)
    (fewer : kept.Sublist claims) : Covers r kept :=
  ⟨fun c member => covers.holder c (fewer.subset member), covers.order.sublist fewer,
    fun c member => covers.gap c (fewer.subset member)⟩

theorem Covers.apart {r : RateLimit} {claims : List Claim} (covers : Covers r claims) :
    claims.Pairwise fun newer older => older.reserved + (r.spacing : Int) ≤ newer.reserved := by
  refine covers.order.imp_of_mem ?_
  rintro newer older member - ⟨p, held, le⟩
  have := covers.gap newer member p held
  omega

theorem Covers.reserve {r s : RateLimit} {claims : List Claim} (covers : Covers r claims)
    (limited : 0 < r.spacing) {now : Int} {previous : Option Int}
    (reserved : r.reserve now = some (previous, s)) : Covers s (⟨now, previous⟩ :: claims) := by
  obtain ⟨past, rfl, rfl⟩ := (reserve_eq_some_iff limited).mp reserved
  refine ⟨?_, List.pairwise_cons.mpr ⟨covers.holder, covers.order⟩, ?_⟩
  · intro c member
    refine ⟨now, rfl, ?_⟩
    rcases List.mem_cons.mp member with rfl | member
    · exact Int.le_refl _
    · obtain ⟨v, held, le⟩ := covers.holder c member
      have := past v held
      omega
  · intro c member
    rcases List.mem_cons.mp member with rfl | member
    · exact past
    · exact covers.gap c member

theorem Covers.accept {r : RateLimit} {claims : List Claim} (covers : Covers r claims)
    {now : Int} (latest : ∀ c ∈ claims, c.reserved ≤ now) : Covers (r.accept now) claims :=
  ⟨fun c member => ⟨now, rfl, latest c member⟩, covers.order, covers.gap⟩

/-- Giving back any claim keeps the others covered. If it holds the slot it is the newest one that
stands, and all the others come no later than its predecessor. -/
theorem Covers.release {r : RateLimit} {newer older : List Claim} {c : Claim}
    (covers : Covers r (newer ++ c :: older)) (limited : 0 < r.spacing) :
    Covers (r.release c.reserved c.previous) (newer ++ older) := by
  have fewer : (newer ++ older).Sublist (newer ++ c :: older) :=
    (List.sublist_cons_self c older).append_left newer
  have others := covers.sublist fewer
  by_cases held : r.lastAccepted = some c.reserved
  · rw [RateLimit.release, if_pos held]
    refine ⟨?_, others.order, others.gap⟩
    intro d member
    have apart := List.pairwise_append.mp covers.apart
    rcases List.mem_append.mp member with newerMember | olderMember
    · -- A newer claim would be later than the holder.
      have later := apart.2.2 d newerMember c (by simp)
      obtain ⟨v, same, le⟩ := others.holder d member
      rw [held, Option.mem_some_iff] at same
      omega
    · have found := (List.pairwise_append.mp covers.order).2.1
      exact (List.pairwise_cons.mp found).1 d olderMember
  · rwa [RateLimit.release, if_neg held]

theorem Covers.release_earlier {r : RateLimit} {claims : List Claim} (covers : Covers r claims)
    {reserved : Int} (later : ∀ c ∈ claims, reserved < c.reserved) (previous : Option Int) :
    Covers (r.release reserved previous) claims := by
  by_cases held : r.lastAccepted = some reserved
  · have none : claims = [] := by
      rw [List.eq_nil_iff_forall_not_mem]
      intro c member
      have after := later c member
      obtain ⟨v, same, le⟩ := covers.holder c member
      rw [held, Option.mem_some_iff] at same
      omega
    rw [none]
    exact covers_nil _
  · rwa [RateLimit.release, if_neg held]

/-! ### Runs -/

inductive Use where
  | reserve (now : Int)
  | release (number : Nat)
  deriving DecidableEq, Repr

structure Ledger where
  limit : RateLimit
  standing : List (Nat × Claim) := []
  made : Nat := 0
  deriving DecidableEq, Repr

namespace Ledger

def start (spacing : Nat) : Ledger := { limit := { spacing } }

/-- A claim that is let in stands until it is given back. A number without a standing claim, never
made or given back before, is not given back. -/
def step (l : Ledger) : Use → Ledger
  | .reserve now =>
    match l.limit.reserve now with
    | some (previous, limit) =>
      { limit, standing := (l.made, ⟨now, previous⟩) :: l.standing, made := l.made + 1 }
    | none => l
  | .release number =>
    match l.standing.find? (·.1 = number) with
    | some (_, c) =>
      { l with
        limit := l.limit.release c.reserved c.previous
        standing := l.standing.eraseP (·.1 = number) }
    | none => l

def run (l : Ledger) (uses : List Use) : Ledger := uses.foldl step l

def claims (l : Ledger) : List Claim := l.standing.map (·.2)

end Ledger

def instants (uses : List Use) : List Int :=
  uses.filterMap fun
    | .reserve now => some now
    | .release _ => none

namespace Ledger

/-! ### What a use does -/

theorem step_reserve (l : Ledger) (now : Int) :
    (l.limit.reserve now = none ∧ l.step (.reserve now) = l) ∨
      ∃ previous limit, l.limit.reserve now = some (previous, limit) ∧
        (l.step (.reserve now)).limit = limit ∧
        (l.step (.reserve now)).claims = ⟨now, previous⟩ :: l.claims := by
  cases answer : l.limit.reserve now with
  | none => exact Or.inl ⟨rfl, by simp [step, answer]⟩
  | some pair =>
    refine Or.inr ⟨pair.1, pair.2, rfl, ?_, ?_⟩
    · simp [step, answer]
    · simp [step, answer, claims]

theorem step_release (l : Ledger) (number : Nat) :
    l.step (.release number) = l ∨
      ∃ newer c older, l.claims = newer ++ c :: older ∧
        (l.step (.release number)).limit = l.limit.release c.reserved c.previous ∧
        (l.step (.release number)).claims = newer ++ older := by
  cases lookup : l.standing.find? (·.1 = number) with
  | none => exact Or.inl (by simp [step, lookup])
  | some found =>
    obtain ⟨same, newer, older, split, others⟩ := List.find?_eq_some_iff_append.mp lookup
    have erased : l.standing.eraseP (·.1 = number) = newer ++ older := by
      rw [split, List.eraseP_append_right _ (by simpa using others)]
      simp [of_decide_eq_true same]
    refine Or.inr ⟨newer.map (·.2), found.2, older.map (·.2), by simp [claims, split], ?_, ?_⟩
    · simp [step, lookup]
    · simp [step, lookup, claims, erased]

theorem spacing_step (l : Ledger) (use : Use) :
    (l.step use).limit.spacing = l.limit.spacing := by
  cases use with
  | reserve now =>
    rcases l.step_reserve now with ⟨-, same⟩ | ⟨previous, limit, answer, same, -⟩
    · rw [same]
    · rw [same, spacing_reserve answer]
  | release number =>
    rcases l.step_release number with same | ⟨-, c, -, -, same, -⟩
    · rw [same]
    · rw [same, spacing_release]

/-! ### What a run keeps -/

/-- What every run keeps, given the instants at which it asked for a claim. A holder that does not
stand any more is out of reach: the spacing had passed since it at one of those instants. -/
structure Sound (l : Ledger) (asked : List Int) : Prop where
  covers : Covers l.limit l.claims
  known : ∀ c ∈ l.claims, c.reserved ∈ asked
  expired : ∀ v ∈ l.limit.lastAccepted,
    (∃ c ∈ l.claims, c.reserved = v) ∨ ∃ t ∈ asked, v + l.limit.spacing ≤ t

theorem sound_start (spacing : Nat) : (start spacing).Sound [] :=
  ⟨covers_nil _, by simp [claims, start], by simp [start]⟩

theorem sound_reserve {l : Ledger} {asked : List Int} (sound : l.Sound asked)
    (limited : 0 < l.limit.spacing) (now : Int) :
    (l.step (.reserve now)).Sound (asked ++ [now]) := by
  rcases l.step_reserve now with ⟨-, same⟩ | ⟨previous, limit, answer, taken, claims⟩
  · rw [same]
    refine ⟨sound.covers, fun c member => by simp [sound.known c member], ?_⟩
    intro v held
    rcases sound.expired v held with stands | ⟨t, member, past⟩
    · exact Or.inl stands
    · exact Or.inr ⟨t, by simp [member], past⟩
  · have covers := sound.covers.reserve limited answer
    refine ⟨by rwa [taken, claims], ?_, ?_⟩
    · rw [claims]
      intro c member
      rcases List.mem_cons.mp member with rfl | member
      · simp
      · simp [sound.known c member]
    · obtain ⟨-, -, rfl⟩ := (reserve_eq_some_iff limited).mp answer
      rw [taken, claims]
      intro v held
      exact Or.inl ⟨⟨now, previous⟩, List.mem_cons_self, Option.mem_some_iff.mp held⟩

theorem sound_release {l : Ledger} {asked : List Int} (sound : l.Sound asked)
    (limited : 0 < l.limit.spacing) (number : Nat) : (l.step (.release number)).Sound asked := by
  rcases l.step_release number with same | ⟨newer, c, older, before, taken, after⟩
  · rwa [same]
  · have covers := sound.covers
    rw [before] at covers
    have kept : ∀ d ∈ newer ++ older, d ∈ l.claims := by
      intro d member
      rw [before]
      rcases List.mem_append.mp member with member | member <;> simp [member]
    refine ⟨by rw [taken, after]; exact covers.release limited, ?_, ?_⟩
    · rw [after]
      exact fun d member => sound.known d (kept d member)
    · rw [taken, after, spacing_release]
      intro v held
      by_cases holds : l.limit.lastAccepted = some c.reserved
      · -- The predecessor comes back; the spacing had passed since it when `c` was let in.
        rw [RateLimit.release, if_pos holds] at held
        have member : c ∈ l.claims := by simp [before]
        exact Or.inr ⟨c.reserved, sound.known c member, sound.covers.gap c member v held⟩
      · rw [RateLimit.release, if_neg holds] at held
        rcases sound.expired v held with ⟨d, member, rfl⟩ | past
        · refine Or.inl ⟨d, ?_, rfl⟩
          rw [before] at member
          rcases List.mem_append.mp member with member | member
          · simp [member]
          · rcases List.mem_cons.mp member with rfl | member
            · exact absurd (Option.mem_def.mp held) holds
            · simp [member]
        · exact Or.inr past

theorem sound_run {l : Ledger} {asked : List Int} (sound : l.Sound asked)
    (limited : 0 < l.limit.spacing) (uses : List Use) :
    (l.run uses).Sound (asked ++ instants uses) := by
  induction uses generalizing l asked with
  | nil => simpa [run, instants] using sound
  | cons use rest ih =>
    have later : 0 < (l.step use).limit.spacing := by rwa [spacing_step]
    cases use with
    | reserve now => simpa [run, instants] using ih (sound_reserve sound limited now) later
    | release number => exact ih (sound_release sound limited number) later

theorem spacing_run (l : Ledger) (uses : List Use) :
    (l.run uses).limit.spacing = l.limit.spacing := by
  induction uses generalizing l with
  | nil => rfl
  | cons use rest ih => exact (ih (l.step use)).trans (l.spacing_step use)

/-- A claim is refused if and only if the spacing has not passed since a claim that stands, and
the claims that stand are the spacing apart. -/
theorem refused_iff_close_to_standing {spacing : Nat} (limited : 0 < spacing) (uses : List Use)
    (now : Int) (latest : ∀ t ∈ instants uses, t ≤ now) :
    (((start spacing).run uses).limit.reserve now = none ↔
      ∃ c ∈ ((start spacing).run uses).claims, now - c.reserved < spacing) ∧
    ((start spacing).run uses).claims.Pairwise fun newer older =>
      (spacing : Int) ≤ newer.reserved - older.reserved := by
  have sound := sound_run (sound_start spacing) limited uses
  have same : ((start spacing).run uses).limit.spacing = spacing := spacing_run _ uses
  generalize (start spacing).run uses = l at sound same
  subst same
  rw [reserve_eq_none_iff l.limit now limited]
  refine ⟨⟨?_, ?_⟩, ?_⟩
  · rintro ⟨v, held, near⟩
    rcases sound.expired v held with ⟨c, member, rfl⟩ | ⟨t, asked, past⟩
    · exact ⟨c, member, by omega⟩
    · have := latest t (by simpa using asked)
      omega
  · rintro ⟨c, member, near⟩
    obtain ⟨v, held, le⟩ := sound.covers.holder c member
    exact ⟨v, held, by omega⟩
  · refine sound.covers.apart.imp ?_
    intro newer older apart
    omega

def outOfOrder : List Use := [.reserve 0, .reserve 10, .reserve 20, .release 1, .release 2]

theorem let_in_behind_returned_holder :
    ((start 10).run outOfOrder).limit.lastAccepted = some 10 ∧
    ((start 10).run outOfOrder).claims = [⟨0, none⟩] ∧
    0 < 10 ∧ (∀ t ∈ instants outOfOrder, t ≤ 20) ∧
    (((start 10).run outOfOrder).limit.reserve 20 = none ↔
      ∃ c ∈ ((start 10).run outOfOrder).claims, 20 - c.reserved < ((10 : Nat) : Int)) ∧
    ((start 10).run outOfOrder).claims.Pairwise fun newer older =>
      ((10 : Nat) : Int) ≤ newer.reserved - older.reserved := by
  refine ⟨by decide, by decide, by decide, by decide, ?_⟩
  exact refused_iff_close_to_standing (by decide) outOfOrder 20 (by decide)

end Ledger

end ScreenPreview.Stream.RateLimit
