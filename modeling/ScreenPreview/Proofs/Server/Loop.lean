import ScreenPreview.Proofs.Server.Turns
import ScreenPreview.Server.Service

/-!
The control loop on its own.

A loop takes turns on its channel while the picture stream changes the preview and the clients
change the world in between, and notes what happens. The service serves its control channel in such
runs (`Service.serve_run`).
-/
namespace ScreenPreview.Server

open Local (Host Socket)

variable {ω : Type}

structure Loop (ω : Type) where
  channel : Channel
  preview : Preview
  world : ω
  log : List Event := []
  broken : Bool := false

inductive Loop.Move (ω : Type) where
  | turn (m : Moment)
  | preview (preview : Preview)
  | world (world : ω)

namespace Loop

def start (socket : Socket) (preview : Preview) (world : ω) : Loop ω :=
  { channel := { socket }, preview, world }

def noting (lines : List String) (log : List Event) : List Event :=
  lines.foldl (fun log text => .line text :: log) log

def step (host : Host ω) (l : Loop ω) : Move ω → Loop ω
  | .turn m =>
    if l.broken then l
    else
      let lines := l.channel.lines host.watched (l.world, [])
      let (outcome, channel, preview, world, seen) :=
        l.channel.turn host.watched m l.preview (l.world, [])
      { channel, preview, world, log := noting lines (seen ++ l.log), broken := outcome.breaks }
  | .preview preview => { l with preview }
  | .world world => { l with world }

def run (host : Host ω) (l : Loop ω) (moves : List (Move ω)) : Loop ω := moves.foldl (step host) l

def LosesReply (host : Host ω) (l : Loop ω) (m : Moment) : Prop :=
  l.broken = false ∧ .unsent ∈ (l.channel.turn host.watched m l.preview (l.world, [])).2.2.2.2

variable (host : Host ω) {l : Loop ω}

theorem run_concat (l : Loop ω) (moves : List (Move ω)) (move : Move ω) :
    l.run host (moves ++ [move]) = (l.run host moves).step host move := by
  rw [run, List.foldl_append]
  rfl

theorem step_turn_of_broken (m : Moment) (broken : l.broken = true) :
    l.step host (.turn m) = l := by
  simp [step, broken]

theorem step_turn_cases (m : Moment) (going : l.broken = false) :
    let after := l.step host (.turn m)
    ∃ lines seen, after.log = noting lines (seen ++ l.log) ∧
      after.preview = lines.foldl (fun p line => (p.process m line).2) l.preview ∧
      (l.LosesReply host m ↔ .unsent ∈ seen) ∧
      (after.broken = true ∧ lines = [] ∧ seen = [] ∨
        after.broken = false ∧ Channel.Turned l.channel lines seen after.channel) := by
  obtain ⟨carried, seen, noted, outcome⟩ := l.channel.turn_cases host m l.preview (l.world, [])
  rw [List.append_nil] at noted
  have stepped : l.step host (.turn m) =
      { channel := (l.channel.turn host.watched m l.preview (l.world, [])).2.1
        preview := (l.channel.turn host.watched m l.preview (l.world, [])).2.2.1
        world := (l.channel.turn host.watched m l.preview (l.world, [])).2.2.2.1
        log := noting (l.channel.lines host.watched (l.world, [])) (seen ++ l.log)
        broken := (l.channel.turn host.watched m l.preview (l.world, [])).1.breaks } := by
    simp only [step, going, Bool.false_eq_true, if_false, noted]
  rw [stepped]
  refine ⟨l.channel.lines host.watched (l.world, []), seen, rfl, carried, ?_, ?_⟩
  · simp only [LosesReply, going, noted, true_and]
  · rcases outcome with ⟨breaks, none_seen, no_lines⟩ | ⟨goes_on, turned⟩
    · exact Or.inl ⟨breaks, no_lines, none_seen⟩
    · exact Or.inr ⟨goes_on, turned⟩

theorem step_turn (m : Moment) (going : l.broken = false) :
    let after := l.step host (.turn m)
    l.channel.turn host m l.preview l.world =
        ((l.channel.turn host m l.preview l.world).1, after.channel, after.preview, after.world) ∧
      after.broken = (l.channel.turn host m l.preview l.world).1.breaks := by
  have same := Channel.turn_map host.simulates_watched m l.channel l.preview (l.world, [])
  simp only [step, going]
  rw [same]
  exact ⟨rfl, rfl⟩

end Loop

namespace Service

theorem serve_run (host : Host ω) (m : Moment) (turns : Nat) {s : Service} {serving : Serving}
    {b : Broadcast} (serves : s.serving = some serving) (sends : s.broadcast = some b) (w : ω)
    {l : Loop ω} (channel : l.channel = serving.channel) (preview : l.preview = b.preview)
    (world : l.world = w) (going : l.broken = false) :
    let after := s.serve host m turns w
    after.1.serving = none ∨ ∃ taken ≤ turns, ∃ serving' b',
      let reached := l.run host (List.replicate taken (.turn m))
      after.1.serving = some serving' ∧ after.1.broadcast = some b' ∧
        reached.channel = serving'.channel ∧ reached.preview = b'.preview ∧
        reached.world = after.2 ∧ reached.broken = false := by
  induction turns generalizing s serving b w l with
  | zero =>
    exact Or.inr ⟨0, Nat.le_refl 0, serving, b, serves, sends, channel, preview, world, going⟩
  | succ turns ih =>
    obtain ⟨turned, broken⟩ := Loop.step_turn host m going
    rw [channel, preview, world] at turned broken
    rcases result : serving.channel.turn host m b.preview w with ⟨outcome, c, p, v⟩
    rw [result] at turned broken
    obtain ⟨-, c_eq, p_eq, v_eq⟩ : outcome = outcome ∧ c = (l.step host (.turn m)).channel ∧
        p = (l.step host (.turn m)).preview ∧ v = (l.step host (.turn m)).world := by
      simpa using turned
    simp only [serve, serves, sends, result]
    cases outcome with
    | idle =>
      exact Or.inr ⟨1, Nat.le_add_left 1 turns, _, _, rfl, rfl, c_eq.symm, p_eq.symm, v_eq.symm,
        broken⟩
    | broken failure => exact Or.inl rfl
    | done =>
      simp only
      split
      · -- The service goes on with the loop as it is after the turn.
        let next : Service := { s with
          serving := some ⟨c, m.now + lookInterval⟩, broadcast := some { b with preview := p } }
        have serves_on : next.serving = some ⟨c, m.now + lookInterval⟩ := rfl
        have sends_on : next.broadcast = some { b with preview := p } := rfl
        rcases ih serves_on sends_on v c_eq.symm p_eq.symm v_eq.symm broken with
          ended | ⟨taken, few, rest⟩
        · exact Or.inl ended
        · exact Or.inr ⟨taken + 1, Nat.succ_le_succ few, rest⟩
      · exact Or.inl rfl

end Service

end ScreenPreview.Server
