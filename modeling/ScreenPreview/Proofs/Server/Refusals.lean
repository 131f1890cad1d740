import ScreenPreview.Proofs.Json.RoundTrip
import ScreenPreview.Server.Preview

/-!
Commands that are refused, and what they leave behind.

A command is refused before anything is changed. Each of the handlers leaves the preview as it is or
answers something that reports no error, so who is told of an error, or is told nothing, has changed
nothing (`process_refused`).
-/
namespace ScreenPreview.Control

variable {σ : Type}

/-- Leave the state as it is, or answer something that is read back and reports no error. -/
def Careful (h : Handler σ) : Prop :=
  ∀ c s, (h c s).2 = s ∨ ∃ result, (h c s).1 = .ok result ∧ Json.Exact 126 result ∧
    result.member? "error" = none

def ReportsError (text : String) : Prop :=
  ∃ envelope result reason, Json.read text = some envelope ∧
    envelope.member? "result" = some result ∧ result.member? "error" = some reason

/-! ### Replies -/

theorem exact_reply {depth : Nat} {result : Json} (name : String)
    (exact : Json.Exact depth result) : Json.Exact (depth + 1) (reply name result) := by
  refine .record ?_
  simp [exact, Json.Exact.text]

theorem exact_refused {depth : Nat} (r : Refusal) : Json.Exact (depth + 1) (refused r) := by
  refine .record ?_
  simp [Json.Exact.text]

theorem reportsError_reply_iff {result : Json} (name : String) (exact : Json.Exact 126 result) :
    ReportsError (reply name result).render ↔ ∃ reason, result.member? "error" = some reason := by
  have read : Json.read (reply name result).render = some (reply name result) :=
    Json.readWithin_render (exact_reply name exact)
  have found : (reply name result).member? "result" = some result := by
    rw [reply, Json.member?_record]
    rfl
  constructor
  · rintro ⟨envelope, other, reason, same, member, error⟩
    rw [read] at same
    cases same
    rw [found] at member
    cases member
    exact ⟨reason, error⟩
  · rintro ⟨reason, error⟩
    exact ⟨_, _, reason, read, found, error⟩

theorem reportsError_refused (name : String) (r : Refusal) :
    ReportsError (reply name (refused r)).render := by
  refine (reportsError_reply_iff name (exact_refused r)).mpr ⟨.text r.message, ?_⟩
  rw [refused, Json.member?_record]
  rfl

/-! ### Tables of handlers -/

namespace Registry

def AllCareful (r : Registry σ) : Prop := ∀ entry ∈ r.handlers, Careful entry.2

theorem AllCareful.register {r : Registry σ} (all : r.AllCareful) (kind : Kind) (name : String)
    {h : Handler σ} (careful : Careful h) : (r.register kind name h).AllCareful := by
  intro entry member
  rcases List.mem_cons.mp member with rfl | other
  · exact careful
  · exact all entry (List.mem_filter.mp other).1

theorem AllCareful.letPass {r : Registry σ} (all : r.AllCareful) (names : List String) :
    (names.foldl Registry.letPass r).AllCareful := by
  induction names generalizing r with
  | nil => exact all
  | cons name names ih => exact ih all

theorem AllCareful.handler? {r : Registry σ} (all : r.AllCareful) {kind : Kind} {name : String}
    {h : Handler σ} (found : r.handler? kind name = some h) : Careful h := by
  obtain ⟨before, after, split, -⟩ := List.lookup_eq_some_iff.mp found
  apply all ((kind, name), h)
  rw [split]
  exact List.mem_append_right _ List.mem_cons_self

theorem AllCareful.dispatch {r : Registry σ} (all : r.AllCareful) (c : Command)
    (mode : Screen.Mode) (s : σ) :
    (r.dispatch c mode s).2 = s ∨
      ∃ result, (r.dispatch c mode s).1 = .ok (some result) ∧ Json.Exact 126 result ∧
        result.member? "error" = none := by
  rw [Registry.dispatch]
  split
  · exact Or.inl rfl
  · cases found : r.handler? c.kind c.name with
    | none => exact Or.inl rfl
    | some h =>
      rcases all.handler? found c s with same | ⟨result, answered, exact, no_error⟩
      · exact Or.inl same
      · refine Or.inr ⟨result, ?_, exact, no_error⟩
        simp only [answered]
        rfl

def Refuses (r : Registry σ) (line : String) (mode : Screen.Mode) (s : σ) (refusal : Refusal) :
    Prop :=
  Command.read line = .error refusal ∨
    ∃ c, Command.read line = .ok c ∧ (r.dispatch c mode s).1 = .error refusal

theorem Refuses.reportsError {r : Registry σ} {line : String} {mode : Screen.Mode} {s : σ}
    {refusal : Refusal} (refuses : r.Refuses line mode s refusal) :
    ∃ text, (r.process line mode s).1 = some text ∧ ReportsError text := by
  rcases refuses with read | ⟨c, read, failed⟩
  · rw [Registry.process, read]
    exact ⟨_, rfl, reportsError_refused "" refusal⟩
  · refine ⟨_, ?_, reportsError_refused c.name refusal⟩
    rcases dispatched : r.dispatch c mode s with ⟨outcome, left⟩
    rw [dispatched] at failed
    cases failed
    simp only [Registry.process, read, dispatched]

/-- Who is told of an error, or is told nothing, has changed nothing. -/
theorem AllCareful.process {r : Registry σ} (all : r.AllCareful) (line : String)
    (mode : Screen.Mode) (s : σ)
    (refused : ∀ text, (r.process line mode s).1 = some text → ReportsError text) :
    (r.process line mode s).2 = s := by
  rw [Registry.process] at refused ⊢
  cases read : Command.read line with
  | error refusal => rfl
  | ok c =>
    rw [read] at refused
    rcases all.dispatch c mode s with same | ⟨result, answered, exact, no_error⟩
    · rcases dispatched : r.dispatch c mode s with ⟨_ | _ | result, left⟩ <;>
        simpa [dispatched] using same
    · exfalso
      rcases dispatched : r.dispatch c mode s with ⟨outcome, left⟩
      rw [dispatched] at answered
      cases answered
      simp only [dispatched] at refused
      obtain ⟨reason, error⟩ := (reportsError_reply_iff c.name exact).mp (refused _ rfl)
      rw [no_error] at error
      cases error

end Registry

end ScreenPreview.Control

namespace ScreenPreview.Server.Preview

open Control Screen

/-! ### The handlers -/

theorem careful_changeSizes (m : Moment) : Careful (changeSizes m) := by
  intro c s
  rw [changeSizes]
  split
  · exact Or.inl rfl
  · next display compression _ =>
    by_cases positive : display.isPositive = true ∧ compression.isPositive = true
    · rw [Geometry.setSizes_of_positive positive]
      exact Or.inr ⟨done, rfl, .bool true, rfl⟩
    · obtain ⟨size, refused⟩ := Geometry.setSizes_of_short (g := s.feed.geometry) positive
      rw [refused]
      exact Or.inl rfl

theorem word_toInt (n : Int32) : Json.Word n.toInt := by
  have least := n.le_toInt
  have most := n.toInt_lt
  constructor <;> omega

theorem careful_rotate (m : Moment) : Careful (rotate m) := by
  intro c s
  refine Or.inr ⟨_, rfl, .record ?_, ?_⟩
  · simp [Json.Exact.int (word_toInt _)]
  · rw [Json.member?_record]
    rfl

theorem careful_setFoldStatus (m : Moment) : Careful (setFoldStatus m) := by
  intro c s
  rw [setFoldStatus]
  split
  · exact Or.inl rfl
  · split
    · exact Or.inr ⟨done, rfl, .bool true, rfl⟩
    · exact Or.inl rfl

theorem careful_limitRate : Careful limitRate := by
  intro c s
  rw [limitRate]
  split
  · exact Or.inl rfl
  · exact Or.inr ⟨done, rfl, .bool true, rfl⟩

theorem careful_setLoadState (m : Moment) : Careful (setLoadState m) := by
  intro c s
  rw [setLoadState]
  split
  · exact Or.inl rfl
  · exact Or.inr ⟨done, rfl, .bool true, rfl⟩
  · exact Or.inr ⟨done, rfl, .bool true, rfl⟩

theorem careful_putRouter : Careful putRouter := by
  intro c s
  rw [putRouter]
  split
  · exact Or.inl rfl
  · exact Or.inr ⟨done, rfl, .bool true, rfl⟩

theorem careful_tellScreen : Careful tellScreen := fun _ _ => Or.inl rfl

theorem careful_tellRouter : Careful tellRouter := fun _ _ => Or.inl rfl

theorem allCareful_commands (m : Moment) : (commands m).AllCareful := by
  have none_yet : (Registry.empty : Registry Preview).AllCareful := by
    intro entry member
    cases member
  exact none_yet.register .set "Resolution" (careful_changeSizes m)
    |>.register .action "Rotate" (careful_rotate m)
    |>.register .set "FoldStatus" (careful_setFoldStatus m)
    |>.register .set "DropFrame" careful_limitRate
    |>.register .get "ScreenInfo" careful_tellScreen
    |>.register .set "LoadDocFlag" (careful_setLoadState m)
    |>.register .get "CurrentRouter" careful_tellRouter
    |>.register .set "CurrentRouter" careful_putRouter
    |>.letPass passing

/-- A line that cannot be read, or whose command is not carried out, is answered by an error. A line
that is answered by an error or not at all leaves the whole preview as it was. -/
theorem process_refused (m : Moment) (line : String) (mode : Screen.Mode) (s : Preview) :
    (∀ refusal, (commands m).Refuses line mode s refusal →
      ∃ text, ((commands m).process line mode s).1 = some text ∧ ReportsError text) ∧
    ((∀ text, ((commands m).process line mode s).1 = some text → ReportsError text) →
      ((commands m).process line mode s).2 = s) :=
  ⟨fun _ => Registry.Refuses.reportsError, (allCareful_commands m).process line mode s⟩

theorem process_refused_size :
    let s : Preview :=
      { feed := .new {} { resolution := .uniform ⟨1, 1⟩ } (fun _ => .ok (0, [])) 0 0 }
    let line := "\x7b\"type\":\"set\",\"command\":\"Resolution\",\"version\":\"1.0.0\"," ++
      "\"args\":\x7b\"originalWidth\":2,\"originalHeight\":3,\"compressionWidth\":0\x7d\x7d"
    let after := (commands ⟨7, 0⟩).process line .static s
    after.1 = some ("\x7b\"command\":\"Resolution\",\"result\":\x7b\"error\":" ++
        "\"handler failed: invalid resolution 0x3\"\x7d,\"version\":\"1.0.0\"\x7d") ∧
      (∀ text, after.1 = some text → ReportsError text) ∧ after.2 = s := by
  intro s line after
  have answer : after.1 =
      some (reply "Resolution" (refused (.failed "invalid resolution 0x3"))).render := by
    decide +kernel
  have told : ∀ text, after.1 = some text → ReportsError text := by
    intro text same
    rw [answer, Option.some.injEq] at same
    rw [← same]
    exact reportsError_refused "Resolution" _
  refine ⟨?_, told, (process_refused ⟨7, 0⟩ line .static s).2 told⟩
  rw [answer]
  decide +kernel

end ScreenPreview.Server.Preview
