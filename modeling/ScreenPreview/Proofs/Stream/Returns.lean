import ScreenPreview.Proofs.Stream.Claims

/-!
Claims that are all given back.

A claim brings back what it found in the slot, and that may be a claim that was given back before
it: then the slot keeps an instant at which no frame stands. So a batch of claims that all fail
leaves the limit as it was only if they are given back in turn, the newest one first
(`run_restores_iff_nested`).
-/
namespace ScreenPreview.Stream.RateLimit

/-- The slot was held by another instant when the claim was made. Else the claim changes nothing,
and neither does giving it back. -/
def Claim.moves (c : Claim) : Bool := c.previous != some c.reserved

theorem release_of_still {c : Claim} (still : c.moves = false) (r : RateLimit) :
    r.release c.reserved c.previous = r := by
  have same : c.previous = some c.reserved := by simpa [Claim.moves] using still
  unfold release
  split
  · rename_i holds
    rw [same, ← holds]
  · rfl

def Leads (before : Option Int) : List Claim → Option Int → Prop
  | [], holder => holder = before
  | c :: older, holder => holder = some c.reserved ∧ Leads before older c.previous

namespace Ledger

def ofLimit (limit : RateLimit) : Ledger := { limit }

def moving (l : Ledger) : List (Nat × Claim) := l.standing.filter (·.2.moves)

/-- A claim that moved the slot is given back only if none stands that moved it later. -/
def InTurn (l : Ledger) : Use → Prop
  | .reserve _ => True
  | .release number => ∀ entry ∈ l.standing.find? (·.1 = number), entry.2.moves = true →
    l.moving.head? = some entry

def Nested : Ledger → List Use → Prop
  | _, [] => True
  | l, use :: rest => l.InTurn use ∧ Nested (l.step use) rest

inductive Turn (l m : Ledger) (use : Use) : Prop
  | still (limit : m.limit = l.limit) (moving : m.moving = l.moving) (inTurn : l.InTurn use)
  | claimed (now : Int) (asked : use = .reserve now) (late : l.limit.tooSoon now = false)
    (other : l.limit.lastAccepted ≠ some now) (limit : m.limit = l.limit.accept now)
    (moving : m.moving = (l.made, ⟨now, l.limit.lastAccepted⟩) :: l.moving)
  | returned (newer older : List (Nat × Claim)) (entry : Nat × Claim)
    (before : l.moving = newer ++ entry :: older)
    (limit : m.limit = l.limit.release entry.2.reserved entry.2.previous)
    (moving : m.moving = newer ++ older) (inTurn : l.InTurn use ↔ newer = [])

theorem turn_step (l : Ledger) (use : Use) : l.Turn (l.step use) use := by
  cases use with
  | reserve now =>
    cases late : l.limit.tooSoon now with
    | true =>
      have same : l.step (.reserve now) = l := by simp [step, reserve, late]
      rw [same]
      exact .still rfl rfl trivial
    | false =>
      have taken : l.step (.reserve now) =
          { limit := l.limit.accept now
            standing := (l.made, ⟨now, l.limit.lastAccepted⟩) :: l.standing
            made := l.made + 1 } := by simp [step, reserve, late]
      rw [taken]
      by_cases held : l.limit.lastAccepted = some now
      · refine .still ?_ ?_ trivial
        · simp [accept, ← held]
        · simp [moving, Claim.moves, held]
      · refine .claimed now rfl late held rfl ?_
        simp [moving, Claim.moves, held]
  | release number =>
    cases lookup : l.standing.find? (·.1 = number) with
    | none =>
      have same : l.step (.release number) = l := by simp [step, lookup]
      rw [same]
      exact .still rfl rfl (by simp [InTurn, lookup])
    | some entry =>
      obtain ⟨own, newer, older, split, others⟩ := List.find?_eq_some_iff_append.mp lookup
      have erased : l.standing.eraseP (·.1 = number) = newer ++ older := by
        rw [split, List.eraseP_append_right _ (by simpa using others)]
        simp [of_decide_eq_true own]
      have taken : l.step (.release number) =
          { l with
            limit := l.limit.release entry.2.reserved entry.2.previous
            standing := newer ++ older } := by simp [step, lookup, erased]
      rw [taken]
      cases moved : entry.2.moves with
      | false =>
        refine .still (release_of_still moved _) ?_ ?_
        · simp [moving, split, moved]
        · simp [InTurn, lookup, moved]
      | true =>
        have before : l.moving =
            newer.filter (·.2.moves) ++ entry :: older.filter (·.2.moves) := by
          simp [moving, split, moved]
        refine .returned _ _ entry before rfl (by simp [moving]) ?_
        simp only [InTurn, lookup, Option.mem_some_iff, forall_eq', moved, true_implies, before]
        cases first : newer.filter (·.2.moves) with
        | nil => simp
        | cons other rest =>
          have among : other ∈ newer :=
            (List.mem_filter.mp (first ▸ List.mem_cons_self)).1
          have differ : other ≠ entry := by
            rintro rfl
            exact absurd own (by simpa using others other among)
          simp [differ]

/-! ### Given back in turn -/

theorem leads_step {before : Option Int} {l : Ledger} {use : Use}
    (leads : Leads before (l.moving.map (·.2)) l.limit.lastAccepted) (inTurn : l.InTurn use) :
    Leads before ((l.step use).moving.map (·.2)) (l.step use).limit.lastAccepted := by
  cases l.turn_step use with
  | still limit moving =>
    rw [limit, moving]
    exact leads
  | claimed now _ _ _ limit moving =>
    rw [limit, moving]
    exact ⟨rfl, leads⟩
  | returned newer older entry split limit moving newest =>
    rw [newest.mp inTurn] at split moving
    rw [split] at leads
    obtain ⟨holds, further⟩ := leads
    rw [limit, moving, release, if_pos holds]
    exact further

theorem leads_run {before : Option Int} {l : Ledger} {uses : List Use}
    (leads : Leads before (l.moving.map (·.2)) l.limit.lastAccepted) (nested : l.Nested uses) :
    Leads before ((l.run uses).moving.map (·.2)) (l.run uses).limit.lastAccepted := by
  induction uses generalizing l with
  | nil => exact leads
  | cons use rest ih => exact ih (leads_step leads nested.1) nested.2

/-! ### Given back out of turn -/

theorem instants_cons_sublist (use : Use) (rest : List Use) :
    (instants rest).Sublist (instants (use :: rest)) :=
  (List.sublist_cons_self use rest).filterMap _

/-- The slot and the claims that moved it lie in order, and so do the instants to come. The spacing
sees to that by itself unless it is zero. -/
structure Onward (l : Ledger) (later : List Int) : Prop where
  covers : Covers { l.limit with spacing := 1 } (l.moving.map (·.2))
  clock : l.limit.spacing = 0 → (l.limit.lastAccepted.toList ++ later).Pairwise (· ≤ ·)

theorem Onward.ahead {l : Ledger} {now : Int} {later : List Int} (onward : l.Onward (now :: later))
    (late : l.limit.tooSoon now = false) (other : l.limit.lastAccepted ≠ some now) :
    ∀ v ∈ l.limit.lastAccepted, v < now := by
  intro v held
  have differ : v ≠ now := by
    rintro rfl
    exact other held
  have reached : v ≤ now := by
    by_cases free : l.limit.spacing = 0
    · have sorted := List.pairwise_append.mp (onward.clock free)
      exact sorted.2.2 v (by simpa using held) now List.mem_cons_self
    · have past := (tooSoon_eq_false_iff l.limit now (by omega)).mp late v held
      omega
  omega

theorem release_unit_spacing (r : RateLimit) (reserved : Int) (previous : Option Int) :
    { r with spacing := 1 }.release reserved previous =
      { r.release reserved previous with spacing := 1 } := by
  unfold release
  split <;> rfl

theorem onward_step {l : Ledger} {use : Use} {rest : List Use}
    (onward : l.Onward (instants (use :: rest))) : (l.step use).Onward (instants rest) := by
  have spacing := l.spacing_step use
  cases l.turn_step use with
  | still limit moving =>
    refine ⟨by rw [limit, moving]; exact onward.covers, ?_⟩
    rw [limit]
    intro free
    exact (onward.clock free).sublist ((instants_cons_sublist use rest).append_left _)
  | claimed now asked late other limit moving =>
    subst asked
    have ahead := onward.ahead late other
    refine ⟨?_, ?_⟩
    · rw [limit, moving]
      refine onward.covers.reserve Nat.one_pos
        ((reserve_eq_some_iff Nat.one_pos).mpr ⟨?_, rfl, rfl⟩)
      intro v held
      exact ahead v held
    · rw [spacing, limit]
      intro free
      exact (List.pairwise_append.mp (onward.clock free)).2.1
  | returned newer older entry before limit moving =>
    have covers := onward.covers
    rw [before, List.map_append, List.map_cons] at covers
    refine ⟨?_, ?_⟩
    · rw [limit, moving, List.map_append, ← release_unit_spacing]
      exact covers.release Nat.one_pos
    · rw [spacing, limit]
      intro free
      have sorted := (onward.clock free).sublist
        ((instants_cons_sublist use rest).append_left _)
      by_cases holds : l.limit.lastAccepted = some entry.2.reserved
      · rw [release, if_pos holds]
        rw [holds] at sorted
        have reached := List.pairwise_cons.mp sorted
        refine List.pairwise_append.mpr ⟨by cases entry.2.previous <;> simp, reached.2, ?_⟩
        intro p found t asked
        have gap := covers.gap entry.2 (by simp) p (by simpa using found)
        have after := reached.1 t asked
        simp only at gap
        omega
      · rw [release, if_neg holds]
        exact sorted

/-- The slot is held by an instant that is not before `t`, and giving back the standing claims
cannot bring it to one before `t`. -/
structure Past (t : Int) (l : Ledger) : Prop where
  held : ∃ v ∈ l.limit.lastAccepted, t ≤ v
  found : ∀ entry ∈ l.moving, t ≤ entry.2.reserved → ∃ p ∈ entry.2.previous, t ≤ p

theorem past_step {t : Int} {l : Ledger} {use : Use} {rest : List Use} (past : l.Past t)
    (onward : l.Onward (instants (use :: rest))) : (l.step use).Past t := by
  cases l.turn_step use with
  | still limit moving => exact ⟨by rw [limit]; exact past.held, by rw [moving]; exact past.found⟩
  | claimed now asked late other limit moving =>
    subst asked
    obtain ⟨v, held, reached⟩ := past.held
    have ahead := onward.ahead late other v held
    refine ⟨?_, ?_⟩
    · rw [limit]
      exact ⟨now, rfl, by omega⟩
    · rw [moving]
      intro entry member notBefore
      rcases List.mem_cons.mp member with rfl | member
      · exact ⟨v, held, reached⟩
      · exact past.found entry member notBefore
  | returned newer older entry before limit moving =>
    refine ⟨?_, ?_⟩
    · rw [limit, release]
      split
      · rename_i holds
        obtain ⟨v, held, reached⟩ := past.held
        rw [holds, Option.mem_some_iff] at held
        exact past.found entry (by simp [before]) (by omega)
      · exact past.held
    · rw [moving]
      intro other member
      refine past.found other ?_
      rw [before]
      rcases List.mem_append.mp member with member | member <;> simp [member]

theorem past_run {t : Int} {l : Ledger} {uses : List Use} (past : l.Past t)
    (onward : l.Onward (instants uses)) : (l.run uses).Past t := by
  induction uses generalizing l with
  | nil => exact past
  | cons use rest ih => exact ih (past_step past onward) (onward_step onward)

theorem past_of_not_inTurn {l : Ledger} {use : Use} {later : List Int} (onward : l.Onward later)
    (outOfTurn : ¬ l.InTurn use) :
    ∃ entry ∈ l.moving, (l.step use).Past entry.2.reserved := by
  cases l.turn_step use with
  | still _ _ inTurn => exact absurd inTurn outOfTurn
  | claimed now asked => exact absurd (by rw [asked]; trivial) outOfTurn
  | returned newer older entry before limit moving newest =>
    have some : newer ≠ [] := fun none => outOfTurn (newest.mpr none)
    obtain ⟨latest, member⟩ := List.exists_mem_of_ne_nil newer some
    have covers := onward.covers
    rw [before, List.map_append, List.map_cons] at covers
    have apart := List.pairwise_append.mp covers.apart
    have behind := apart.2.2 latest.2 (List.mem_map_of_mem member) entry.2 List.mem_cons_self
    obtain ⟨v, held, reached⟩ := covers.holder latest.2
      (List.mem_append_left _ (List.mem_map_of_mem member))
    simp only at behind held
    -- A newer claim came behind this one, so the slot is not this one's to give back.
    have kept : (l.step use).limit = l.limit := by
      rw [limit, release, if_neg]
      intro holds
      rw [holds, Option.mem_some_iff] at held
      omega
    refine ⟨entry, by simp [before], ⟨v, by rwa [kept], by omega⟩, ?_⟩
    rw [moving]
    intro other among notBefore
    rcases List.mem_append.mp among with among | among
    · have order := List.pairwise_append.mp covers.order
      exact order.2.2 other.2 (List.mem_map_of_mem among) entry.2 List.mem_cons_self
    · have earlier := (List.pairwise_cons.mp apart.2.1).1 other.2 (List.mem_map_of_mem among)
      simp only at earlier
      omega

structure Behind (t : Int) (l : Ledger) : Prop extends l.Past t where
  before : ∀ entry ∈ l.moving, t < entry.2.reserved

theorem behind_step {t : Int} {l : Ledger} {use : Use} {rest : List Use} (behind : l.Behind t)
    (onward : l.Onward (instants (use :: rest))) : (l.step use).Behind t := by
  refine ⟨past_step behind.toPast onward, ?_⟩
  cases l.turn_step use with
  | still _ moving =>
    rw [moving]
    exact behind.before
  | claimed now asked late other limit moving =>
    subst asked
    obtain ⟨v, held, reached⟩ := behind.held
    have ahead := onward.ahead late other v held
    rw [moving]
    exact List.forall_mem_cons.mpr ⟨by simp only; omega, behind.before⟩
  | returned newer older entry before limit moving =>
    have kept := behind.before
    rw [before] at kept
    rw [moving]
    intro other member
    exact kept other (by rcases List.mem_append.mp member with member | member <;> simp [member])

/-- A claim given back out of turn keeps the slot from ever holding again what it held before. -/
theorem nested_of_restored {before : Option Int} {l : Ledger} {uses : List Use}
    (onward : l.Onward (instants uses)) (behind : ∀ t ∈ before, l.Behind t)
    (restored : (l.run uses).limit.lastAccepted = before) : l.Nested uses := by
  induction uses generalizing l with
  | nil => trivial
  | cons use rest ih =>
    have further := onward_step onward
    by_cases inTurn : l.InTurn use
    · exact ⟨inTurn, ih further (fun t held => behind_step (behind t held) onward) restored⟩
    · obtain ⟨entry, stood, past⟩ := past_of_not_inTurn onward inTurn
      obtain ⟨v, held, reached⟩ := (past_run past further).held
      have same : v ∈ before := restored ▸ held
      have := (behind v same).before entry stood
      omega

/-- Once every claim is given back the limit is as it was before them if, and only if, they were
given back in turn. Where the limit is off the clock has to go forwards for this. -/
theorem run_restores_iff_nested (limit : RateLimit) (uses : List Use)
    (returned : ((ofLimit limit).run uses).standing = []) :
    ((ofLimit limit).Nested uses → ((ofLimit limit).run uses).limit = limit) ∧
    ((limit.spacing = 0 → (limit.lastAccepted.toList ++ instants uses).Pairwise (· ≤ ·)) →
      ((ofLimit limit).run uses).limit = limit → (ofLimit limit).Nested uses) := by
  refine ⟨?_, ?_⟩
  · intro nested
    have start : Leads limit.lastAccepted ((ofLimit limit).moving.map (·.2)) limit.lastAccepted :=
      rfl
    have leads := leads_run start nested
    have spacing := spacing_run (ofLimit limit) uses
    have none : ((ofLimit limit).run uses).moving = [] := by simp [moving, returned]
    rw [none] at leads
    exact congr (congrArg RateLimit.mk spacing) leads
  · intro forwards restored
    have onward : (ofLimit limit).Onward (instants uses) := ⟨covers_nil _, forwards⟩
    refine nested_of_restored onward ?_ (congrArg lastAccepted restored)
    intro t held
    exact ⟨⟨⟨t, held, Int.le_refl t⟩, by simp [moving, ofLimit]⟩, by simp [moving, ofLimit]⟩

def newestFirst : List Use := [.reserve 0, .reserve 10, .release 1, .release 0]

theorem run_restores_newest_first :
    ((ofLimit ⟨10, none⟩).run newestFirst).standing = [] ∧
    (ofLimit ⟨10, none⟩).Nested newestFirst ∧
    ((ofLimit ⟨10, none⟩).run newestFirst).limit = ⟨10, none⟩ := by
  have exactly := run_restores_iff_nested ⟨10, none⟩ newestFirst (by decide)
  have nested := exactly.2 (by decide) (by decide)
  exact ⟨by decide, nested, exactly.1 nested⟩

def oldestFirst : List Use := [.reserve 0, .reserve 10, .release 0, .release 1]

/-- The second return brings back the claim that was returned before it. -/
theorem returned_claim_comes_back :
    ¬ ∀ (limit : RateLimit) (uses : List Use), ((ofLimit limit).run uses).standing = [] →
      ((ofLimit limit).run uses).limit.lastAccepted = limit.lastAccepted := by
  intro restores
  have back : ((ofLimit ⟨10, none⟩).run oldestFirst).limit.lastAccepted = some 0 := by decide
  have none := restores ⟨10, none⟩ oldestFirst (by decide)
  rw [back] at none
  exact absurd none (by decide)

end Ledger

end ScreenPreview.Stream.RateLimit
