import Mathlib.Data.List.Induction
import ScreenPreview.Proofs.Control.Lengths
import ScreenPreview.Proofs.Server.Refusals

/-!
Which handler a command line runs.

A table is built by registering handlers and letting names pass, in any order and any number of
times. What a line runs depends on the last registration of its own kind and name only, and each
line runs one handler or none (`process_routed`). Which handler is run is told by handlers that note
their number in a log beside the state.
-/
namespace ScreenPreview.Control.Registry

variable {σ : Type}

/-! ### Tables and how they are built -/

inductive Change (σ : Type) where
  | register (kind : Kind) (name : String) (handler : Handler σ)
  | letPass (name : String)

def apply (r : Registry σ) : Change σ → Registry σ
  | .register kind name handler => r.register kind name handler
  | .letPass name => r.letPass name

def built (changes : List (Change σ)) : Registry σ := changes.foldl apply .empty

/-- The last registration for a kind and a name, and its number among the changes. -/
structure Last (changes : List (Change σ)) (kind : Kind) (name : String) (n : Nat)
    (h : Handler σ) : Prop where
  registered : changes[n]? = some (.register kind name h)
  later : ∀ m k, n < m → changes[m]? ≠ some (.register kind name k)

variable {changes : List (Change σ)} {kind : Kind} {name : String} {h : Handler σ}

theorem built_concat (changes : List (Change σ)) (change : Change σ) :
    built (changes ++ [change]) = (built changes).apply change := by
  rw [built, List.foldl_append]
  rfl

theorem last_concat {change : Change σ} {n : Nat} : Last (changes ++ [change]) kind name n h ↔
    (n = changes.length ∧ change = .register kind name h) ∨
      (Last changes kind name n h ∧ ∀ k, change ≠ .register kind name k) := by
  have newest : (changes ++ [change])[changes.length]? = some change := List.getElem?_concat_length
  have older {m : Nat} (before : m < changes.length) :
      (changes ++ [change])[m]? = changes[m]? := List.getElem?_append_left before
  constructor
  · intro last
    obtain ⟨inside, -⟩ := List.getElem?_eq_some_iff.mp last.registered
    rw [List.length_append, List.length_singleton] at inside
    rcases Nat.lt_succ_iff_lt_or_eq.mp inside with before | rfl
    · refine Or.inr ⟨⟨(older before).symm.trans last.registered, ?_⟩, ?_⟩
      · intro m k behind same
        obtain ⟨within, -⟩ := List.getElem?_eq_some_iff.mp same
        exact last.later m k behind ((older within).trans same)
      · intro k same
        exact last.later _ k before (newest.trans (congrArg some same))
    · exact Or.inl ⟨rfl, Option.some.inj (newest.symm.trans last.registered)⟩
  · rintro (⟨rfl, rfl⟩ | ⟨last, other⟩)
    · refine ⟨newest, ?_⟩
      intro m k behind same
      obtain ⟨within, -⟩ := List.getElem?_eq_some_iff.mp same
      rw [List.length_append, List.length_singleton] at within
      omega
    · obtain ⟨inside, -⟩ := List.getElem?_eq_some_iff.mp last.registered
      refine ⟨(older inside).trans last.registered, ?_⟩
      intro m k behind same
      rcases Nat.lt_trichotomy m changes.length with before | rfl | after
      · exact last.later m k behind ((older before).symm.trans same)
      · exact other k (Option.some.inj (newest.symm.trans same))
      · obtain ⟨within, -⟩ := List.getElem?_eq_some_iff.mp same
        rw [List.length_append, List.length_singleton] at within
        omega

theorem lookup_filter_of_ne {key other : Kind × String} (different : other ≠ key)
    (entries : List ((Kind × String) × Handler σ)) :
    (entries.filter fun entry => entry.1 != key).lookup other = entries.lookup other := by
  induction entries with
  | nil => rfl
  | cons entry rest ih =>
    by_cases taken : entry.1 = key
    · have passed : (other == entry.1) = false := by simpa [taken] using different
      rw [List.filter_cons_of_neg (by simpa using taken), List.lookup_cons, passed, ih]
    · rw [List.filter_cons_of_pos (by simpa using taken), List.lookup_cons, List.lookup_cons, ih]

theorem handler?_register (r : Registry σ) (h : Handler σ) :
    (r.register kind name h).handler? kind name = some h := by
  rw [handler?, register, List.lookup_cons_self]

theorem handler?_register_of_ne (r : Registry σ) (h : Handler σ) {other : Kind} {otherName : String}
    (different : (other, otherName) ≠ (kind, name)) :
    (r.register kind name h).handler? other otherName = r.handler? other otherName := by
  rw [handler?, register, List.lookup_cons, beq_eq_false_iff_ne.mpr different]
  exact lookup_filter_of_ne different r.handlers

theorem handler?_built : (built changes).handler? kind name = some h ↔
    ∃ n, Last changes kind name n h := by
  induction changes using List.reverseRecOn with
  | nil =>
    refine iff_of_false (by rintro ⟨⟩) ?_
    rintro ⟨n, last⟩
    cases last.registered
  | append_singleton changes change ih =>
    simp only [last_concat, exists_or, exists_and_right, ← ih, built_concat]
    cases change with
    | register other otherName k =>
      by_cases same : (kind, name) = (other, otherName)
      · cases same
        rw [apply, handler?_register]
        simp
      · rw [apply, handler?_register_of_ne _ _ same]
        simp only [ne_eq, Prod.mk.injEq, Change.register.injEq] at same ⊢
        constructor
        · intro found
          exact Or.inr ⟨found, fun k equal => same ⟨equal.1.symm, equal.2.1.symm⟩⟩
        · rintro (⟨-, equal⟩ | ⟨found, -⟩)
          · exact absurd ⟨equal.1.symm, equal.2.1.symm⟩ same
          · exact found
    | letPass other =>
      rw [apply]
      simp [letPass, handler?]

theorem exists_last (registered : .register kind name h ∈ changes) :
    ∃ n k, Last changes kind name n k := by
  induction changes using List.reverseRecOn with
  | nil => cases registered
  | append_singleton changes change ih =>
    simp only [last_concat]
    by_cases newest : ∃ k, change = .register kind name k
    · obtain ⟨k, same⟩ := newest
      exact ⟨changes.length, k, Or.inl ⟨rfl, same⟩⟩
    · rcases List.mem_append.mp registered with before | last
      · obtain ⟨n, k, counts⟩ := ih before
        exact ⟨n, k, Or.inr ⟨counts, not_exists.mp newest⟩⟩
      · exact absurd ⟨h, (List.mem_singleton.mp last).symm⟩ newest

theorem not_mem_of_handler?_built (unknown : (built changes).handler? kind name = none)
    (h : Handler σ) : .register kind name h ∉ changes := by
  intro registered
  obtain ⟨n, k, last⟩ := exists_last registered
  cases unknown.symm.trans (handler?_built.mpr ⟨n, last⟩)

theorem isDropped_built : (built changes).isDropped name = true ↔ .letPass name ∉ changes := by
  induction changes using List.reverseRecOn with
  | nil => simp [built, empty, isDropped]
  | append_singleton changes change ih =>
    rw [built_concat, List.mem_append, not_or, ← ih, List.mem_singleton]
    cases change with
    | register kind other h => simp [apply, register, isDropped]
    | letPass other => simp [apply, letPass, isDropped, and_comm]

/-! ### Handlers that note what they are run for -/

abbrev Log := List (Nat × Command)

def noting (n : Nat) (h : Handler σ) : Handler (σ × Log) := fun c s =>
  let (result, t) := h c s.1
  (result, t, s.2 ++ [(n, c)])

def Change.watched (n : Nat) : Change σ → Change (σ × Log)
  | .register kind name h => .register kind name (noting n h)
  | .letPass name => .letPass name

/-- The same changes with handlers that note their number. -/
def watched (changes : List (Change σ)) : List (Change (σ × Log)) := changes.mapIdx Change.watched

theorem letPass_mem_watched : .letPass name ∈ watched changes ↔ .letPass name ∈ changes := by
  rw [watched, List.mem_mapIdx]
  constructor
  · rintro ⟨n, inside, same⟩
    cases change : changes[n] with
    | register kind other h =>
      rw [change] at same
      cases same
    | letPass other =>
      rw [change] at same
      cases same
      exact change ▸ List.getElem_mem inside
  · intro listed
    obtain ⟨n, inside, same⟩ := List.mem_iff_getElem.mp listed
    exact ⟨n, inside, by rw [same, Change.watched]⟩

theorem register_of_watched {n : Nat} {g : Handler (σ × Log)}
    (registered : (watched changes)[n]? = some (.register kind name g)) :
    ∃ h, changes[n]? = some (.register kind name h) := by
  rw [watched, List.getElem?_mapIdx] at registered
  cases change : changes[n]? with
  | none =>
    rw [change] at registered
    cases registered
  | some other =>
    rw [change] at registered
    cases other with
    | register otherKind otherName h =>
      cases registered
      exact ⟨h, rfl⟩
    | letPass other => cases registered

theorem Last.watched {n : Nat} (last : Last changes kind name n h) :
    Last (watched changes) kind name n (noting n h) := by
  refine ⟨?_, ?_⟩
  · rw [Registry.watched, List.getElem?_mapIdx, last.registered]
    rfl
  · intro m g behind registered
    obtain ⟨k, same⟩ := register_of_watched registered
    exact last.later m k behind same

theorem not_mem_watched (unregistered : ∀ h, .register kind name h ∉ changes)
    (g : Handler (σ × Log)) : .register kind name g ∉ watched changes := by
  intro registered
  obtain ⟨n, same⟩ := List.mem_iff_getElem?.mp registered
  obtain ⟨h, registered⟩ := register_of_watched same
  exact unregistered h (List.mem_of_getElem? registered)

/-! ### What becomes of a line -/

def told (name : String) (result : Json) : Json :=
  .object [("command", .text name), ("result", result), ("version", .text currentVersion)]

/-- What becomes of a line: the answer, the state, and which handlers are run. -/
inductive Routed (changes : List (Change σ)) (line : String) (mode : Screen.Mode) (s : σ) :
    Option String → σ → Log → Prop
  | rejected (refusal : Refusal) (read : Command.read line = .error refusal) :
    Routed changes line mode s (some (told "" (refused refusal)).render) s []
  | ignored (c : Command) (read : Command.read line = .ok c) (dropping : mode = .static)
    (unlisted : .letPass c.name ∉ changes) : Routed changes line mode s none s []
  | unknown (c : Command) (read : Command.read line = .ok c)
    (passes : mode = .static → .letPass c.name ∈ changes)
    (unregistered : ∀ h, .register c.kind c.name h ∉ changes) :
    Routed changes line mode s
      (some (told c.name (refused (.noHandler c.kind c.name))).render) s []
  | run (c : Command) (n : Nat) (h : Handler σ) (read : Command.read line = .ok c)
    (passes : mode = .static → .letPass c.name ∈ changes) (last : Last changes c.kind c.name n h) :
    Routed changes line mode s (some (told c.name (payload (h c s).1)).render) (h c s).2 [(n, c)]

variable {line : String} {mode : Screen.Mode} {s : σ}

theorem process_eq (r : Registry σ) (line : String) (mode : Screen.Mode) (s : σ) :
    r.process line mode s =
      match Command.read line with
      | .error refusal => (some (told "" (refused refusal)).render, s)
      | .ok c =>
        if mode = .static ∧ r.isDropped c.name = true then (none, s)
        else
          match r.handler? c.kind c.name with
          | none => (some (told c.name (refused (.noHandler c.kind c.name))).render, s)
          | some h => (some (told c.name (payload (h c s).1)).render, (h c s).2) := by
  rw [process]
  cases Command.read line with
  | error refusal => simp only [reply_eq, told]
  | ok c =>
    dsimp only
    by_cases dropped : mode = .static ∧ r.isDropped c.name = true
    · rw [if_pos dropped, dispatch, if_pos (by simpa using dropped)]
    · rw [if_neg dropped, dispatch, if_neg (by simpa using dropped)]
      cases r.handler? c.kind c.name with
      | none => simp only [reply_eq, told]
      | some h =>
        dsimp only
        cases (h c s).1 with
        | error refusal => simp only [Except.map, reply_eq, told, payload]
        | ok value => simp only [Except.map, reply_eq, told, payload]

theorem handler?_watched (changes : List (Change σ)) (kind : Kind) (name : String) :
    (built (watched changes)).handler? kind name = none ∧
      (built changes).handler? kind name = none ∧ (∀ h, .register kind name h ∉ changes) ∨
    ∃ n h, (built (watched changes)).handler? kind name = some (noting n h) ∧
      (built changes).handler? kind name = some h ∧ Last changes kind name n h := by
  cases found : (built changes).handler? kind name with
  | none =>
    have unregistered := not_mem_of_handler?_built found
    refine Or.inl ⟨?_, rfl, unregistered⟩
    by_contra known
    obtain ⟨g, known⟩ := Option.ne_none_iff_exists'.mp known
    obtain ⟨n, last⟩ := handler?_built.mp known
    exact not_mem_watched unregistered g (List.mem_of_getElem? last.registered)
  | some h =>
    obtain ⟨n, last⟩ := handler?_built.mp found
    exact Or.inr ⟨n, h, handler?_built.mpr ⟨n, last.watched⟩, rfl, last⟩

theorem isDropped_watched :
    (built (watched changes)).isDropped name = (built changes).isDropped name := by
  rw [Bool.eq_iff_iff, isDropped_built, isDropped_built, letPass_mem_watched]

theorem routed (changes : List (Change σ)) (line : String) (mode : Screen.Mode) (s : σ)
    (log : Log) : ∃ answer t runs,
      (built changes).process line mode s = (answer, t) ∧
      (built (watched changes)).process line mode (s, log) = (answer, t, log ++ runs) ∧
      Routed changes line mode s answer t runs := by
  rw [process_eq, process_eq]
  cases read : Command.read line with
  | error refusal =>
    refine ⟨_, _, [], rfl, ?_, .rejected refusal read⟩
    rw [List.append_nil]
  | ok c =>
    dsimp only
    rw [isDropped_watched]
    by_cases dropped : mode = .static ∧ (built changes).isDropped c.name = true
    · rw [if_pos dropped, if_pos dropped]
      refine ⟨_, _, [], rfl, ?_, .ignored c read dropped.1 (isDropped_built.mp dropped.2)⟩
      rw [List.append_nil]
    · have passes : mode = .static → .letPass c.name ∈ changes := by
        intro dropping
        by_contra unlisted
        exact dropped ⟨dropping, isDropped_built.mpr unlisted⟩
      rw [if_neg dropped, if_neg dropped]
      rcases handler?_watched changes c.kind c.name with
        ⟨unknown, plain, unregistered⟩ | ⟨n, h, found, plain, last⟩
      · rw [unknown, plain]
        refine ⟨_, _, [], rfl, ?_, .unknown c read passes unregistered⟩
        rw [List.append_nil]
      · have ran : noting n h c (s, log) = ((h c s).1, (h c s).2, log ++ [(n, c)]) := rfl
        rw [found, plain]
        dsimp only
        rw [ran]
        exact ⟨_, _, [(n, c)], rfl, rfl, .run c n h read passes last⟩

/-! ### Registrations of others -/

/-- A registration changes nothing for another kind and name, whatever is changed before and after
it. -/
theorem handler?_without {before after : List (Change σ)} {other : Kind} {otherName : String}
    (different : (other, otherName) ≠ (kind, name)) :
    (built (before ++ .register kind name h :: after)).handler? other otherName =
      (built (before ++ after)).handler? other otherName := by
  induction after using List.reverseRecOn with
  | nil =>
    rw [List.append_nil, built_concat]
    exact handler?_register_of_ne _ _ different
  | append_singleton after change ih =>
    rw [← List.cons_append, ← List.append_assoc, ← List.append_assoc, built_concat, built_concat]
    cases change with
    | register third thirdName k =>
      by_cases same : (other, otherName) = (third, thirdName)
      · cases same
        rw [apply, apply, handler?_register, handler?_register]
      · rw [apply, apply, handler?_register_of_ne _ _ same, handler?_register_of_ne _ _ same]
        exact ih
    | letPass third => exact ih

theorem isDropped_without {before after : List (Change σ)} {other : String} :
    (built (before ++ .register kind name h :: after)).isDropped other =
      (built (before ++ after)).isDropped other := by
  rw [Bool.eq_iff_iff, isDropped_built, isDropped_built]
  simp

theorem process_without {before after : List (Change σ)}
    (other : ∀ c, Command.read line = .ok c → (c.kind, c.name) ≠ (kind, name)) :
    (built (before ++ .register kind name h :: after)).process line mode s =
      (built (before ++ after)).process line mode s := by
  rw [process_eq, process_eq]
  cases read : Command.read line with
  | error refusal => rfl
  | ok c =>
    dsimp only
    rw [isDropped_without, handler?_without (other c read)]

/-! ### Replies -/

theorem read_told {name : String} {result : Json} (exact : Json.Exact 126 result) :
    Json.read (told name result).render = some (told name result) := by
  rw [told, ← reply_eq]
  exact Json.readWithin_render (exact_reply name exact)

theorem Routed.unanswered_iff {answer : Option String} {t : σ} {runs : Log}
    (routed : Routed changes line mode s answer t runs) : answer = none ↔
      ∃ c, Command.read line = .ok c ∧ mode = .static ∧ .letPass c.name ∉ changes := by
  constructor
  · rintro rfl
    cases routed with
    | ignored c read dropping unlisted => exact ⟨c, read, dropping, unlisted⟩
  · rintro ⟨c, read, dropping, unlisted⟩
    cases routed with
    | rejected refusal rejected => cases read.symm.trans rejected
    | ignored => rfl
    | unknown d other passes =>
      cases read.symm.trans other
      exact absurd (passes dropping) unlisted
    | run d n h other passes =>
      cases read.symm.trans other
      exact absurd (passes dropping) unlisted

theorem Routed.exists_told {answer : Option String} {t : σ} {runs : Log}
    (routed : Routed changes line mode s answer t runs) {text : String}
    (answered : answer = some text) : ∃ name result, text = (told name result).render := by
  cases routed with
  | rejected refusal => exact ⟨_, _, (Option.some.inj answered).symm⟩
  | ignored => cases answered
  | unknown c => exact ⟨_, _, (Option.some.inj answered).symm⟩
  | run c n h => exact ⟨_, _, (Option.some.inj answered).symm⟩

/-- However a table was built, and whatever the line, the mode and the state: the line is rejected,
ignored or unknown and runs no handler, or it runs the last one for its kind and name, once. It is
not answered exactly if it is ignored. An answer is an object of three members, which is read back
as such if its result can be. Leaving out a registration for another kind and name changes
nothing. -/
theorem process_routed (changes : List (Change σ)) (line : String) (mode : Screen.Mode) (s : σ)
    (log : Log) :
    let outcome := (built changes).process line mode s
    (∃ runs, (built (watched changes)).process line mode (s, log) =
        (outcome.1, outcome.2, log ++ runs) ∧
      Routed changes line mode s outcome.1 outcome.2 runs) ∧
    (outcome.1 = none ↔
      ∃ c, Command.read line = .ok c ∧ mode = .static ∧ .letPass c.name ∉ changes) ∧
    (∀ text, outcome.1 = some text → ∃ name result, text = (told name result).render ∧
      (Json.Exact 126 result → Json.read text = some (told name result))) ∧
    ∀ before after kind name h, changes = before ++ .register kind name h :: after →
      (∀ c, Command.read line = .ok c → (c.kind, c.name) ≠ (kind, name)) →
        outcome = (built (before ++ after)).process line mode s := by
  intro outcome
  obtain ⟨answer, t, runs, plain, noted, routing⟩ := routed changes line mode s log
  have same : outcome = (answer, t) := plain
  rw [same]
  refine ⟨⟨runs, noted, routing⟩, routing.unanswered_iff, ?_, ?_⟩
  · intro text answered
    obtain ⟨name, result, rendered⟩ := routing.exists_told answered
    exact ⟨name, result, rendered, fun exact => rendered ▸ read_told exact⟩
  · rintro before after kind name h rfl other
    exact plain.symm.trans (process_without other)

end ScreenPreview.Control.Registry
