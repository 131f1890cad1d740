import ScreenPreview.Proofs.Stream.Claims
import ScreenPreview.Proofs.Stream.WireContents

/-!
The claims of live frames that stand in a pool.

A live frame claims the slot of the rate limit in its first section and gives it back only after its
encoding has failed. So the claim of a frame that was encoded stands for good (`Booked`).
-/
namespace ScreenPreview.Stream

open Event (encodings)

namespace Log

def standing : Log → List (Nat × RateLimit.Claim)
  | [] => []
  | (number, .claimed now previous) :: older => (number, ⟨now, previous⟩) :: standing older
  | (number, .gaveBack) :: older => (standing older).filter (·.1 ≠ number)
  | _ :: older => standing older

end Log

def Call.slot? : Call → Option RateLimit.Claim
  | encode ⟨_, now, .live previous⟩ => some ⟨now, previous⟩
  | release job previous _ => some ⟨job.admitted, previous⟩
  | _ => none

variable {ω : Type} {sink : Sink ω} {f g : Feed} {c d : Call} {events : List Event}
  {request : Request}

/-! ### The slot in one section -/

theorem Call.Section.slot_cases (taken : Section sink c f events d g) :
    (∃ job previous failure, c = .release job previous failure ∧ events = [.gaveBack] ∧
      d = .done (.error failure) ∧ g.rateLimit = f.rateLimit.release job.admitted previous) ∨
    (∃ job quality, c = .accept job quality ∧ events = [] ∧ d = .publish job quality ∧
      g.rateLimit = f.rateLimit.accept job.admitted) ∨
    g.rateLimit = f.rateLimit ∧
      ∀ event ∈ events, event ≠ .gaveBack ∧ ∀ now previous, event ≠ .claimed now previous := by
  cases taken with
  | encode job =>
    refine Or.inr (Or.inr ⟨?_, by simp⟩)
    unfold Feed.encode
    split <;> rfl
  | release job previous failure => exact Or.inl ⟨job, previous, failure, rfl, rfl, rfl, rfl⟩
  | accept job quality => exact Or.inr (Or.inl ⟨job, quality, rfl, rfl, rfl, rfl⟩)
  | packed packing packs =>
    obtain ⟨_, _, -, rfl⟩ := Feed.pack_ok packs
    refine Or.inr (Or.inr ⟨packing.keeps.2.2, ?_⟩)
    cases packing <;> simp
  | unpacked packing =>
    refine Or.inr (Or.inr ⟨packing.keeps.2.2, ?_⟩)
    cases packing <;> simp
  | record purpose now bytes =>
    exact Or.inr (Or.inr ⟨(recorded_keeps purpose now bytes f).2.2.2, by simp⟩)
  | _ => exact Or.inr (Or.inr ⟨rfl, by simp⟩)

theorem Call.Section.slot_eq (taken : Section sink c f events d g) {claim : RateLimit.Claim}
    (slot : d.slot? = some claim) : c.slot? = some claim := by
  cases taken with
  | encode job =>
    obtain ⟨frame, admitted, route⟩ := job
    unfold encoded at slot
    split at slot
    · cases route <;> simp [slot?] at slot
    · cases route <;> simp_all [slot?]
  | done => exact slot
  | _ => simp [slot?] at slot

theorem Log.standing_of_others {number : Nat} {log : Log}
    (others : ∀ event ∈ events,
      event ≠ .gaveBack ∧ ∀ now previous, event ≠ .claimed now previous) :
    standing (events.map (number, ·) ++ log) = standing log := by
  induction events with
  | nil => rfl
  | cons event rest ih =>
    have later := ih fun event member => others event (List.mem_cons_of_mem _ member)
    obtain ⟨kept, new⟩ := others event List.mem_cons_self
    rw [List.map_cons, List.cons_append]
    cases event with
    | claimed now previous => exact absurd rfl (new now previous)
    | gaveBack => exact absurd rfl kept
    | _ => exact later

theorem Call.Section.done_eq {result : Except Failure Outcome}
    (taken : Section sink (.done result) f events d g) : events = [] ∧ d = .done result := by
  cases taken with
  | packed packing => cases packing
  | unpacked packing => cases packing
  | done => exact ⟨rfl, rfl⟩

theorem Call.Section.not_claimed (taken : Section sink c f events d g) {now : Int}
    {previous : Option Int} : .claimed now previous ∉ events := by
  rcases taken.slot_cases with ⟨_, _, _, -, rfl, -, -⟩ | ⟨_, _, -, rfl, -, -⟩ | ⟨-, others⟩
  · simp
  · simp
  · exact fun member => (others _ member).2 now previous rfl

theorem Call.Section.standing_cases (taken : Section sink c f events d g) (number : Nat)
    (log : Log) :
    Log.standing (events.map (number, ·) ++ log) = log.standing ∨
      (∃ job previous failure, c = .release job previous failure ∧ events = [.gaveBack] ∧
        d = .done (.error failure)) ∧
        Log.standing (events.map (number, ·) ++ log) = log.standing.filter (·.1 ≠ number) := by
  rcases taken.slot_cases with ⟨job, previous, failure, rfl, rfl, rfl, -⟩ | ⟨_, _, -, rfl, -, -⟩ |
    ⟨-, others⟩
  · exact Or.inr ⟨⟨job, previous, failure, rfl, rfl, rfl⟩, rfl⟩
  · exact Or.inl rfl
  · exact Or.inl (Log.standing_of_others others)

theorem Call.Section.standing_sublist (taken : Section sink c f events d g) (number : Nat)
    (log : Log) : (Log.standing (events.map (number, ·) ++ log)).Sublist log.standing := by
  rcases taken.standing_cases number log with same | ⟨-, same⟩
  · simp [same]
  · rw [same]
    exact List.filter_sublist

/-! ### The slot in the first section -/

theorem standing_start (opens : request.Opens c) (number : Nat) (log : Log) :
    (c.slot? = none ∧
        Log.standing ((c.claims ++ [Event.asked request]).map (number, ·) ++ log) = log.standing) ∨
      ∃ claim, c.slot? = some claim ∧
        Log.standing ((c.claims ++ [Event.asked request]).map (number, ·) ++ log) =
          (number, claim) :: log.standing := by
  cases opens with
  | encode serves =>
    cases serves with
    | live pixels now previous => exact Or.inr ⟨_, rfl, rfl⟩
    | load => exact Or.inl ⟨rfl, rfl⟩
    | replay => exact Or.inl ⟨rfl, rfl⟩
  | _ => exact Or.inl ⟨rfl, rfl⟩

theorem slot_of_claimed {now : Int} {previous : Option Int}
    (claimed : .claimed now previous ∈ c.claims ++ [.asked request]) :
    c.slot? = some ⟨now, previous⟩ := by
  unfold Call.claims at claimed
  split at claimed
  · simp only [List.singleton_append, List.mem_cons, Event.claimed.injEq, reduceCtorEq,
      List.not_mem_nil, or_false] at claimed
    rw [claimed.1, claimed.2]
    rfl
  · simp at claimed

/-! ### Runs -/

namespace Pool

/-- How the calls of a pool and the claims that stand belong together. -/
structure Booked (p : Pool ω) : Prop where
  distinct : p.log.standing.Pairwise fun newer older => newer.1 ≠ older.1
  numbers : ∀ entry ∈ p.log.standing, entry.1 < p.calls.length
  slots : ∀ (number : Nat) c claim, p.calls[number]? = some c → c.slot? = some claim →
    (number, claim) ∈ p.log.standing
  /-- A claim stands until its call has ended without a picture. -/
  fates : ∀ number now previous, (number, .claimed now previous) ∈ p.log →
    (number, ⟨now, previous⟩) ∈ p.log.standing ∨
      (∃ result, p.calls[number]? = some (.done result)) ∧ Failed (p.log.own number)

variable {p : Pool ω}

theorem booked_start (booked : p.Booked) (now : Int) (request : Request) :
    (p.step sink (.start now request)).Booked := by
  obtain ⟨distinct, numbers, slots, fates⟩ := booked
  have opens := request.opens_enter now p.feed
  rw [step_start]
  generalize (request.enter now p.feed).1 = c at *
  have grown := standing_start opens p.calls.length p.log
  have kept {entry : Nat × RateLimit.Claim} (stands : entry ∈ p.log.standing) : entry ∈
      Log.standing ((c.claims ++ [Event.asked request]).map (p.calls.length, ·) ++ p.log) := by
    rcases grown with ⟨-, same⟩ | ⟨claim, -, same⟩
    · rwa [same]
    · rw [same]
      exact List.mem_cons_of_mem _ stands
  have new {claim : RateLimit.Claim} (slot : c.slot? = some claim) : (p.calls.length, claim) ∈
      Log.standing ((c.claims ++ [Event.asked request]).map (p.calls.length, ·) ++ p.log) := by
    rcases grown with ⟨none, -⟩ | ⟨_, some, same⟩
    · rw [none] at slot
      cases slot
    · rw [some, Option.some.injEq] at slot
      rw [same, slot]
      exact List.mem_cons_self
  refine ⟨?_, ?_, ?_, ?_⟩
  · rcases grown with ⟨-, same⟩ | ⟨claim, -, same⟩
    · rwa [same]
    · rw [same]
      refine List.pairwise_cons.mpr ⟨?_, distinct⟩
      intro entry member
      exact Nat.ne_of_gt (numbers entry member)
  · rw [List.length_append, List.length_singleton]
    intro entry member
    rcases grown with ⟨-, same⟩ | ⟨claim, -, same⟩
    · rw [same] at member
      exact Nat.lt_succ_of_lt (numbers entry member)
    · rw [same] at member
      rcases List.mem_cons.mp member with rfl | member
      · exact Nat.lt_succ_self _
      · exact Nat.lt_succ_of_lt (numbers entry member)
  · intro number d claim made slot
    rcases calls_append made with before | ⟨rfl, rfl⟩
    · exact kept (slots number d claim before slot)
    · exact new slot
  · intro number instant previous member
    rcases List.mem_append.mp member with fresh | member
    · obtain ⟨event, claimed, same⟩ := List.mem_map.mp fresh
      cases same
      exact Or.inl (new (slot_of_claimed claimed))
    · rcases fates number instant previous member with stands | ⟨⟨result, made⟩, failed⟩
      · exact Or.inl (kept stands)
      · have earlier := (List.getElem?_eq_some_iff.mp made).1
        refine Or.inr ⟨⟨result, by rw [List.getElem?_append_left earlier, made]⟩, ?_⟩
        rwa [Log.own_append, Log.own_of_other (by omega), List.nil_append]

theorem booked_advance {reserve : Nat} (booked : p.Booked) (sound : p.Sound sink reserve)
    (now : Int) (number : Nat) : (p.step sink (.advance now number)).Booked := by
  rcases p.step_advance sink now number with
    same | ⟨c, d, events, feed, world, made, free, taken, step⟩
  · rwa [same]
  rw [step]
  obtain ⟨distinct, numbers, slots, fates⟩ := booked
  have length := (List.getElem?_eq_some_iff.mp made).1
  have change := taken.standing_cases number p.log
  have fewer := taken.standing_sublist number p.log
  have others {entry : Nat × RateLimit.Claim} (stands : entry ∈ p.log.standing)
      (other : entry.1 ≠ number) : entry ∈ Log.standing (events.map (number, ·) ++ p.log) := by
    rcases change with same | ⟨-, same⟩
    · rwa [same]
    · rw [same]
      exact List.mem_filter.mpr ⟨stands, by simpa using other⟩
  refine ⟨distinct.sublist fewer, ?_, ?_, ?_⟩
  · intro entry member
    rw [List.length_set]
    exact numbers entry (fewer.subset member)
  · intro other e claim other_made slot
    rcases calls_set other_made with ⟨rfl, rfl⟩ | ⟨differ, before⟩
    · rcases change with same | ⟨⟨_, _, _, -, -, rfl⟩, -⟩
      · rw [same]
        exact slots other c claim made (taken.slot_eq slot)
      · cases slot
    · exact others (slots other e claim before slot) differ
  · intro other instant previous member
    have member : (other, .claimed instant previous) ∈ p.log := by
      rcases List.mem_append.mp member with fresh | member
      · obtain ⟨event, fresh, same⟩ := List.mem_map.mp fresh
        cases same
        exact absurd fresh taken.not_claimed
      · exact member
    have fate := fates other instant previous member
    by_cases own : other = number
    · subst own
      rcases change with same | ⟨⟨job, _, _, rfl, rfl, rfl⟩, -⟩
      · rcases fate with stands | ⟨⟨result, done⟩, failed⟩
        · rw [same]
          exact Or.inl stands
        · rw [made, Option.some.injEq] at done
          subst done
          obtain ⟨rfl, rfl⟩ := taken.done_eq
          exact Or.inr ⟨⟨result, List.getElem?_set_self length⟩, failed⟩
      · -- The call gives back, which it does only after its encoding has failed.
        obtain ⟨_, -, failed, -⟩ := sound.along other _ made
        refine Or.inr ⟨⟨_, List.getElem?_set_self length⟩, ?_⟩
        rw [Log.own_append, Log.own_of_own]
        exact failed
    · rcases fate with stands | ⟨⟨result, done⟩, failed⟩
      · exact Or.inl (others stands own)
      · refine Or.inr ⟨⟨result, by rw [List.getElem?_set_ne (Ne.symm own), done]⟩, ?_⟩
        rwa [Log.own_append, Log.own_of_other own, List.nil_append]

theorem booked_step {reserve : Nat} (booked : p.Booked) (sound : p.Sound sink reserve)
    (move : Move ω) : (p.step sink move).Booked := by
  cases move with
  | start now request => exact booked_start booked now request
  | advance now number => exact booked_advance booked sound now number
  | control now change =>
    rcases p.step_control sink now change with same | ⟨-, step⟩
    · rwa [same]
    · obtain ⟨distinct, numbers, slots, fates⟩ := booked
      rw [step]
      exact ⟨distinct, numbers, slots, fates⟩
  | world world =>
    obtain ⟨distinct, numbers, slots, fates⟩ := booked
    exact ⟨distinct, numbers, slots, fates⟩

theorem booked_new (feed : Feed) (world : ω) : (start feed world).Booked := by
  refine ⟨List.Pairwise.nil, ?_, ?_, ?_⟩
  · intro entry member
    cases member
  · intro number c claim made
    simp [start] at made
  · intro number now previous member
    cases member

end Pool

end ScreenPreview.Stream
