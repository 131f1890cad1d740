import ScreenPreview.Local.Network
import ScreenPreview.Local.Socket
import ScreenPreview.Proofs.Control.Envelope
import ScreenPreview.Proofs.Server.Lengths

/-!
Which requests are left without an answer.

A reply is sent as one line, whose length is limited as that of a request is. A refusal repeats a
text of the request, an unknown name even twice, so the reply to a request that keeps the limit may
be too long: it is sent exactly where the repeated text is short enough, and always for requests of
about half the limit (`sent_iff_repeated_fits`).
-/
namespace ScreenPreview

open Json (escaped weight pairWeight)
open String (utf8Len)

theorem Local.Socket.sendLine_iff {ω : Type} {host : Local.Host ω} (socket : Local.Socket)
    {peer : Local.Peer} {w : ω} (attached : socket.peer = some peer)
    (room : Control.Line.defaultLimit < socket.maxWrite)
    (works : ∀ data, (host.write peer data w).1 = .ok ()) (text : String) :
    (∃ n, (socket.sendLine host text w).1 = .ok n) ↔
      text.utf8ByteSize ≤ Control.Line.defaultLimit := by
  rw [← Bytes.length_ofText, sendLine, Control.Line.toBytes]
  by_cases long : Control.Line.defaultLimit < (Bytes.ofText text).length
  · rw [if_pos long]
    refine iff_of_false ?_ (Nat.not_le.mpr long)
    rintro ⟨n, sent⟩
    cases sent
  · rw [if_neg long]
    refine iff_of_true ⟨(Bytes.ofText text ++ [0]).length, ?_⟩ (Nat.not_lt.mp long)
    have fits : ¬ socket.maxWrite < (Bytes.ofText text ++ [0]).length := by
      rw [List.length_append, List.length_singleton]
      omega
    have wrote := works (Bytes.ofText text ++ [0])
    dsimp only
    rw [write, if_neg fits, attached]
    dsimp only
    rcases written : host.write peer (Bytes.ofText text ++ [0]) w with ⟨_ | _, v⟩
    · rw [written] at wrote
      cases wrote
    · rfl

namespace Server.Preview

open Control

/-! ### All commands -/

/-- What the answer of a registered command repeats is short enough: an unknown word of the request,
or the page that the preview holds. -/
def TextFits (c : Command) (s : Preview) : Prop :=
  (c.name = "FoldStatus" → ∀ word, c.textArg "foldStatus" = .ok word → escaped word ≤ 65434) ∧
    (c.name = "LoadDocFlag" → ∀ word, c.textArg "flag" = .ok word → escaped word ≤ 65434) ∧
    (c.name = "CurrentRouter" → c.kind = .get → escaped s.router ≤ 65461)

def RefusalFits : Refusal → Prop
  | .badVersion version => escaped version ≤ 65457
  | .unknownKind word => escaped word ≤ 65460
  | _ => True

/-- What the reply to a line repeats leaves room for the rest of the reply. The name of a command
that is not registered is repeated twice. -/
def RepeatedFits (m : Moment) (line : String) (s : Preview) : Prop :=
  match Command.read line with
  | .error refusal => RefusalFits refusal
  | .ok c =>
    match (commands m).handler? c.kind c.name with
    | none => escaped c.kind.name + 2 * escaped c.name ≤ 65466
    | some _ => TextFits c s

theorem refusalFits_of_fixed {refusal : Refusal} (fixed : refusal ∈ Command.fixedRefusals) :
    RefusalFits refusal := by
  simp only [Command.fixedRefusals, List.mem_cons, List.not_mem_nil, or_false] at fixed
  rcases fixed with rfl | rfl | rfl | rfl | rfl <;> trivial

theorem handlers_commands (m : Moment) : (commands m).handlers =
    [((.set, "CurrentRouter"), putRouter), ((.get, "CurrentRouter"), tellRouter),
      ((.set, "LoadDocFlag"), setLoadState m), ((.get, "ScreenInfo"), tellScreen),
      ((.set, "DropFrame"), limitRate), ((.set, "FoldStatus"), setFoldStatus m),
      ((.action, "Rotate"), rotate m), ((.set, "Resolution"), changeSizes m)] := rfl

theorem mem_handlers {m : Moment} {kind : Kind} {name : String} {h : Handler Preview}
    (found : (commands m).handler? kind name = some h) :
    ((kind, name), h) ∈ (commands m).handlers := by
  obtain ⟨before, after, split, -⟩ := List.lookup_eq_some_iff.mp found
  rw [split]
  exact List.mem_append_right _ List.mem_cons_self

theorem handled_fits {m : Moment} {c : Command} {h : Handler Preview}
    (found : (commands m).handler? c.kind c.name = some h) (s : Preview) :
    42 + escaped c.name + utf8Len (payload (h c s).1).chars ≤ Control.Line.defaultLimit ↔
      TextFits c s := by
  have entry := mem_handlers found
  rw [handlers_commands] at entry
  simp only [List.mem_cons, Prod.mk.injEq, List.not_mem_nil, or_false] at entry
  rcases entry with ⟨⟨kind, name⟩, rfl⟩ | ⟨⟨kind, name⟩, rfl⟩ | ⟨⟨kind, name⟩, rfl⟩ |
    ⟨⟨kind, name⟩, rfl⟩ | ⟨⟨kind, name⟩, rfl⟩ | ⟨⟨kind, name⟩, rfl⟩ | ⟨⟨kind, name⟩, rfl⟩ |
    ⟨⟨kind, name⟩, rfl⟩
  -- One goal for each entry of the table, in its order.
  all_goals rw [TextFits, kind, name]
  · refine iff_of_true ((brief_putRouter c s).fits (by decide)) ?_
    simp
  · rw [utf8Len_tellRouter]
    have length : escaped "CurrentRouter" = 13 := rfl
    have limit : Control.Line.defaultLimit = 65536 := rfl
    rw [length]
    constructor
    · intro fits
      exact ⟨by simp, by simp, fun _ _ => by omega⟩
    · intro fits
      have short := fits.2.2 rfl rfl
      omega
  · have fits := (repeats_setLoadState m c s).fits (42 + escaped "LoadDocFlag") rfl
    simpa using fits
  · refine iff_of_true ((brief_tellScreen c s).fits (by decide)) ?_
    simp
  · refine iff_of_true ((brief_limitRate c s).fits (by decide)) ?_
    simp
  · have fits := (repeats_setFoldStatus m c s).fits (42 + escaped "FoldStatus") rfl
    simpa using fits
  · refine iff_of_true ((brief_rotate m c s).fits (by decide)) ?_
    simp
  · refine iff_of_true ((brief_changeSizes m c s).fits (by decide)) ?_
    simp

/-- A reply is not too long exactly where what it repeats is not. -/
theorem length_le_iff {m : Moment} {line text : String} {mode : Screen.Mode} {s : Preview}
    (answered : ((commands m).process line mode s).1 = some text) :
    text.utf8ByteSize ≤ Control.Line.defaultLimit ↔ RepeatedFits m line s := by
  have limit : Control.Line.defaultLimit = 65536 := rfl
  rw [RepeatedFits]
  rcases process_cases answered with ⟨refusal, read, rfl⟩ | ⟨c, read, ⟨unknown, rfl⟩ |
    ⟨h, found, rfl⟩⟩
  · have nameless : escaped "" = 0 := rfl
    rw [read, Json.utf8ByteSize_render, utf8Len_reply, utf8Len_refused, nameless, limit]
    rcases Command.refusal_of_read read with fixed | ⟨version, rfl, -⟩ | ⟨word, rfl, -⟩
    · have short := Command.escaped_fixedRefusals fixed
      exact iff_of_true (by omega) (refusalFits_of_fixed fixed)
    · rw [escaped_badVersion]
      dsimp only [RefusalFits]
      omega
    · rw [escaped_unknownKind]
      dsimp only [RefusalFits]
      omega
  · rw [read, Json.utf8ByteSize_render, utf8Len_reply, utf8Len_refused, escaped_noHandler, limit]
    dsimp only
    rw [unknown]
    dsimp only
    omega
  · rw [read, Json.utf8ByteSize_render, utf8Len_reply, handled_fits found s]
    dsimp only
    rw [found]

/-! ### Requests of half the limit -/

theorem le_of_textArg {c : Command} {line name word : String} (read : Command.read line = .ok c)
    (given : c.textArg name = .ok word) :
    57 + escaped c.kind.name + escaped c.name + escaped name + escaped word ≤
      line.utf8ByteSize := by
  have found := textArg_ok given
  rcases args : c.args with _ | _ | _ | _ | _ | _ | ms
  any_goals
    rw [args] at found
    cases found
  rw [args, Json.member?] at found
  have counted := Json.pairWeight_le_of_lookup found
  have long := (Command.le_of_read read).2 (by rw [args]; exact Json.noConfusion)
  rw [pairWeight, weight] at counted
  rw [args, weight] at long
  omega

theorem repeatedFits_of_half (m : Moment) {line : String} {s : Preview}
    (half : line.utf8ByteSize ≤ 32776) (modest : escaped s.router ≤ 65461) :
    RepeatedFits m line s := by
  rw [RepeatedFits]
  cases read : Command.read line with
  | error refusal =>
    rcases Command.refusal_of_read read with fixed | ⟨version, rfl, short⟩ | ⟨word, rfl, short⟩
    · exact refusalFits_of_fixed fixed
    · dsimp only [RefusalFits]
      omega
    · dsimp only [RefusalFits]
      omega
  | ok c =>
    have long := (Command.le_of_read read).1
    have kind : 3 ≤ escaped c.kind.name := by cases c.kind <;> decide
    dsimp only
    split
    · omega
    · refine ⟨?_, ?_, fun _ _ => modest⟩
      · intro _ word given
        have more := le_of_textArg read given
        omega
      · intro _ word given
        have more := le_of_textArg read given
        omega

/-! ### The page that is told -/

theorem router_handled {m : Moment} {c : Command} {h : Handler Preview}
    (found : (commands m).handler? c.kind c.name = some h) (s : Preview) :
    (h c s).2.router = s.router ∨
      c.kind = .set ∧ c.name = "CurrentRouter" ∧
        c.textArg "CurrentRouter" = .ok (h c s).2.router := by
  have entry := mem_handlers found
  rw [handlers_commands] at entry
  simp only [List.mem_cons, Prod.mk.injEq, List.not_mem_nil, or_false] at entry
  rcases entry with ⟨⟨kind, name⟩, rfl⟩ | ⟨-, rfl⟩ | ⟨-, rfl⟩ | ⟨-, rfl⟩ | ⟨-, rfl⟩ | ⟨-, rfl⟩ |
    ⟨-, rfl⟩ | ⟨-, rfl⟩
  · rw [putRouter]
    split
    · exact Or.inl rfl
    · next router given => exact Or.inr ⟨kind, name, given⟩
  · exact Or.inl rfl
  · rw [setLoadState]
    split <;> exact Or.inl rfl
  · exact Or.inl rfl
  · rw [limitRate]
    split <;> exact Or.inl rfl
  · rw [setFoldStatus]
    split
    · exact Or.inl rfl
    · split <;> exact Or.inl rfl
  · exact Or.inl rfl
  · rw [changeSizes]
    split
    · exact Or.inl rfl
    · split <;> exact Or.inl rfl

/-- No request that keeps the limit makes the preview hold a page that is too long to be told: the
request that names the page is longer than the reply that tells it. -/
theorem router_process (m : Moment) {line : String} (mode : Screen.Mode) {s : Preview}
    (short : line.utf8ByteSize ≤ Control.Line.defaultLimit) (modest : escaped s.router ≤ 65461) :
    escaped ((commands m).process line mode s).2.router ≤ 65461 := by
  have limit : Control.Line.defaultLimit = 65536 := rfl
  rw [Registry.process]
  cases read : Command.read line with
  | error refusal => exact modest
  | ok c =>
    have kept : ((commands m).dispatch c mode s).2.router = s.router ∨
        c.kind = .set ∧ c.name = "CurrentRouter" ∧
          c.textArg "CurrentRouter" = .ok ((commands m).dispatch c mode s).2.router := by
      rw [Registry.dispatch]
      split
      · exact Or.inl rfl
      · cases found : (commands m).handler? c.kind c.name with
        | none => exact Or.inl rfl
        | some h => exact router_handled found s
    have held : escaped ((commands m).dispatch c mode s).2.router ≤ 65461 := by
      rcases kept with same | ⟨-, name, given⟩
      · rw [same]
        exact modest
      · have more := le_of_textArg read given
        have length : escaped "CurrentRouter" = 13 := rfl
        rw [name] at more
        omega
    dsimp only
    rcases dispatched : (commands m).dispatch c mode s with ⟨_ | _ | _, left⟩
    all_goals
      rw [dispatched] at held
      exact held

structure Request where
  moment : Moment
  mode : Screen.Mode
  line : String

def Request.Short (request : Request) : Prop :=
  request.line.utf8ByteSize ≤ Control.Line.defaultLimit

def afterAll (past : List Request) (s : Preview) : Preview :=
  past.foldl (fun s request => ((commands request.moment).process request.line request.mode s).2) s

theorem router_afterAll {past : List Request} {s : Preview}
    (short : ∀ request ∈ past, request.Short)
    (modest : escaped s.router ≤ 65461) : escaped (s.afterAll past).router ≤ 65461 := by
  induction past generalizing s with
  | nil => exact modest
  | cons request past ih =>
    obtain ⟨first, rest⟩ := List.forall_mem_cons.mp short
    exact ih rest (router_process request.moment request.mode first modest)

/-- A reply is sent to a client that takes what is written exactly where what it repeats is short
enough. After any requests that kept the limit, so is the reply to every request of half of it. -/
theorem sent_iff_repeated_fits {ω : Type} (m : Moment) (line : String) (mode : Screen.Mode)
    (s : Preview) {text : String} (answered : ((commands m).process line mode s).1 = some text)
    {host : Local.Host ω} (socket : Local.Socket) {peer : Local.Peer} {w : ω}
    (attached : socket.peer = some peer) (room : Control.Line.defaultLimit < socket.maxWrite)
    (works : ∀ data, (host.write peer data w).1 = .ok ()) :
    ((∃ n, (socket.sendLine host text w).1 = .ok n) ↔ RepeatedFits m line s) ∧
      ∀ (start : Preview) (past : List Request), (∀ request ∈ past, request.Short) →
        escaped start.router ≤ 65461 → s = start.afterAll past → line.utf8ByteSize ≤ 32776 →
        ∃ n, (socket.sendLine host text w).1 = .ok n := by
  have sent := (socket.sendLine_iff attached room works text).trans (length_le_iff answered)
  refine ⟨sent, ?_⟩
  rintro start past short modest rfl half
  exact sent.mpr (repeatedFits_of_half m half (router_afterAll short modest))

/-! ### A request that is answered and one that is not -/

def twoEnds : Local.Network := { ends := #[{}, {}] }

theorem write_twoEnds (data : Bytes) : (Local.Network.host.write ⟨1⟩ data twoEnds).1 = .ok () := by
  change (Local.Network.write ⟨1⟩ data twoEnds).1 = .ok ()
  unfold Local.Network.write
  split
  · rfl
  · rfl

theorem sent_of_unregistered_name :
    let s : Preview :=
      { feed := .new {} { resolution := .uniform ⟨1, 1⟩ } (fun _ => .ok (0, [])) 0 0 }
    let line := "\x7b\"type\":\"get\",\"command\":\"x\",\"version\":\"0.0.0\"\x7d"
    let text := (reply "x" (refused (.noHandler .get "x"))).render
    ((commands ⟨0, 0⟩).process line .dynamic s).1 = some text ∧
      ∃ n, (({ peer := some ⟨1⟩ } : Local.Socket).sendLine Local.Network.host text twoEnds).1 =
        .ok n := by
  intro s line text
  have answered : ((commands ⟨0, 0⟩).process line .dynamic s).1 = some text := by decide +kernel
  have sent := (sent_iff_repeated_fits ⟨0, 0⟩ line .dynamic s answered
    { peer := some ⟨1⟩ } rfl (by decide) write_twoEnds).2
  have none_past : ∀ request ∈ ([] : List Request), request.Short := by
    intro request member
    cases member
  exact ⟨answered, sent s [] none_past (by decide +kernel) rfl (by decide +kernel)⟩

theorem escaped_replicate (n : Nat) : escaped (String.ofList (List.replicate n 'a')) = n := by
  rw [escaped, String.toList_ofList]
  induction n with
  | zero => rfl
  | succ n ih =>
    have one : utf8Len (Json.escape 'a') = 1 := rfl
    rw [List.replicate_succ, Json.utf8Len_flatMap_cons, ih, one, Nat.add_comm]

theorem handler?_eq_none (m : Moment) (kind : Kind) {name : String} (long : 13 < escaped name) :
    (commands m).handler? kind name = none := by
  cases found : (commands m).handler? kind name with
  | none => rfl
  | some h =>
    have entry := mem_handlers found
    rw [handlers_commands] at entry
    have short : ∀ known ∈ ["CurrentRouter", "LoadDocFlag", "ScreenInfo", "DropFrame", "FoldStatus",
        "Rotate", "Resolution"], escaped known ≤ 13 := by decide
    have member : name ∈ ["CurrentRouter", "LoadDocFlag", "ScreenInfo", "DropFrame", "FoldStatus",
        "Rotate", "Resolution"] := by
      simp only [List.mem_cons, Prod.mk.injEq, List.not_mem_nil, or_false] at entry ⊢
      tauto
    exact absurd (short name member) (Nat.not_le.mpr long)

theorem utf8ByteSize_render_of_null {c : Command} (none_given : c.args = .null) :
    c.render.utf8ByteSize =
      37 + escaped c.kind.name + escaped c.name + escaped c.version := by
  have keys : escaped "type" = 4 ∧ escaped "command" = 7 ∧ escaped "version" = 7 := ⟨rfl, rfl, rfl⟩
  have signs : Char.utf8Size '\x7b' = 1 ∧ Char.utf8Size ',' = 1 ∧ Char.utf8Size '\x7d' = 1 :=
    ⟨rfl, rfl, rfl⟩
  rw [Command.render, Json.utf8ByteSize_render, Command.toJson_of_null none_given]
  simp only [Json.chars, Command.envelope, Json.memberChars, String.utf8Len_append,
    String.utf8Len_cons, String.utf8Len_nil, Json.utf8Len_pairChars, Json.utf8Len_quoted, keys]
  omega

theorem read_render_of_null {c : Command} (none_given : c.args = .null)
    (valid : isVersion c.version = true) : Command.read c.render = .ok c := by
  have back := Json.readWithin_object (Command.exact_envelope 126 c)
  rw [Command.read, Json.read, Command.render, Json.depthLimit, Command.toJson_of_null none_given,
    back]
  exact Command.ofJson_record rfl rfl rfl valid none_given.symm

theorem process_unregistered {m : Moment} {c : Command} {s : Preview} (none_given : c.args = .null)
    (valid : isVersion c.version = true) (long : 13 < escaped c.name) :
    ((commands m).process c.render .dynamic s).1 =
      some (reply c.name (refused (.noHandler c.kind c.name))).render := by
  have dispatched : (commands m).dispatch c .dynamic s =
      (.error (.noHandler c.kind c.name), s) := by
    rw [Registry.dispatch, if_neg (by simp), handler?_eq_none m c.kind long]
  rw [Registry.process, read_render_of_null none_given valid]
  dsimp only
  rw [dispatched]

theorem utf8ByteSize_unregistered (c : Command) :
    (reply c.name (refused (.noHandler c.kind c.name))).render.utf8ByteSize =
      70 + escaped c.kind.name + 2 * escaped c.name := by
  rw [Json.utf8ByteSize_render, utf8Len_reply, utf8Len_refused, escaped_noHandler]
  omega

/-- A request with a name of 32732 bytes is one byte longer than those that are always answered. -/
theorem unanswered_request :
    let s : Preview :=
      { feed := .new {} { resolution := .uniform ⟨1, 1⟩ } (fun _ => .ok (0, [])) 0 0 }
    let c : Command := ⟨.get, String.ofList (List.replicate 32732 'a'), "0.0.0", .null⟩
    let text := (reply c.name (refused (.noHandler c.kind c.name))).render
    c.render.utf8ByteSize = 32777 ∧ text.utf8ByteSize = 65537 ∧
      ((commands ⟨0, 0⟩).process c.render .dynamic s).1 = some text ∧
      (∀ data, (Local.Network.host.write ⟨1⟩ data twoEnds).1 = .ok ()) ∧
      ¬ ∃ n, (({ peer := some ⟨1⟩ } : Local.Socket).sendLine Local.Network.host text twoEnds).1 =
        .ok n := by
  have length := escaped_replicate 32732
  generalize String.ofList (List.replicate 32732 'a') = name at length ⊢
  intro s c text
  have fixed : escaped Kind.get.name = 3 ∧ escaped "0.0.0" = 5 := ⟨rfl, rfl⟩
  have size : text.utf8ByteSize = 65537 := by
    rw [utf8ByteSize_unregistered, length, fixed.1]
  have valid : isVersion "0.0.0" = true := by decide
  have long : 13 < escaped name := by omega
  refine ⟨?_, size, process_unregistered rfl valid long, write_twoEnds, ?_⟩
  · rw [utf8ByteSize_render_of_null rfl, length, fixed.1, fixed.2]
  · rw [Local.Socket.sendLine_iff _ rfl (by decide) write_twoEnds, size]
    decide

end Server.Preview

end ScreenPreview
