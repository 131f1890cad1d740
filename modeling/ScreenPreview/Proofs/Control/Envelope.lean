import ScreenPreview.Control.Command
import ScreenPreview.Proofs.Json.RoundTrip

/-!
Commands are read back from the lines they are written to.

The envelope is one object around the arguments and takes one level of the depth that a line may
have. The line keeps the members in the order of the envelope, the reader sorts them by key
(`read_render`).
-/
namespace ScreenPreview.Control.Command

def envelope (c : Command) : List (String × Json) :=
  [("type", .text c.kind.name), ("command", .text c.name), ("version", .text c.version)]

variable {c : Command}

theorem toJson_of_null (none_given : c.args = .null) : c.toJson = .object c.envelope := by
  obtain ⟨kind, name, version, args⟩ := c
  cases none_given
  rfl

theorem toJson_of_args (some_given : c.args ≠ .null) :
    c.toJson = .object (c.envelope ++ [("args", c.args)]) := by
  obtain ⟨kind, name, version, args⟩ := c
  cases args with
  | null => exact absurd rfl some_given
  | _ => rfl

theorem member?_args_eq_none_iff (c : Command) :
    c.toJson.member? "args" = none ↔ c.args = .null := by
  by_cases none_given : c.args = .null
  · rw [toJson_of_null none_given]
    exact iff_of_true rfl none_given
  · have there : (Json.object (c.envelope ++ [("args", c.args)])).member? "args" = some c.args :=
      rfl
    rw [toJson_of_args none_given, there]
    exact iff_of_false (Option.some_ne_none c.args) none_given

theorem ofJson_record {ms : List (String × Json)}
    (kind : ms.reverse.lookup "type" = some (.text c.kind.name))
    (name : ms.reverse.lookup "command" = some (.text c.name))
    (version : ms.reverse.lookup "version" = some (.text c.version))
    (valid : isVersion c.version = true) (args : (ms.reverse.lookup "args").getD .null = c.args) :
    ofJson (Json.record ms) = .ok c := by
  have text {key word : String} (found : ms.reverse.lookup key = some (.text word)) :
      textMember key (Json.record ms) = .ok word := by
    rw [textMember, Json.member?_record, found]
    rfl
  rw [Json.record_eq] at text ⊢
  simp only [ofJson, text kind, text name, text version, bind, Except.bind, valid, if_true,
    Kind.ofName_name]
  rw [← Json.record_eq, Json.member?_record, args]
  rfl

theorem exact_envelope (depth : Nat) (c : Command) :
    ∀ m ∈ c.envelope, Json.Exact depth m.2 := by
  simp [envelope, Json.Exact.text]

/-- A command of a valid version is read back with its arguments, however these are quoted and
nested. Arguments that are `null` are left out. -/
theorem read_render (c : Command) (valid : isVersion c.version = true)
    (exact : Json.Exact 126 c.args) :
    read c.render = .ok c ∧ (c.toJson.member? "args" = none ↔ c.args = .null) := by
  refine ⟨?_, member?_args_eq_none_iff c⟩
  rw [read, Json.read, render, Json.depthLimit]
  by_cases none_given : c.args = .null
  · have back := Json.readWithin_object (exact_envelope 126 c)
    rw [toJson_of_null none_given, back]
    exact ofJson_record rfl rfl rfl valid none_given.symm
  · have inside : ∀ m ∈ c.envelope ++ [("args", c.args)], Json.Exact 126 m.2 := by
      rw [List.forall_mem_append, List.forall_mem_singleton]
      exact ⟨exact_envelope 126 c, exact⟩
    have back := Json.readWithin_object inside
    rw [toJson_of_args none_given, back]
    exact ofJson_record rfl rfl rfl valid rfl

theorem read_render_hardest :
    let args : Json := .record [("k", .list [.int (-0x8000000000000000), .null]),
      ("é", .list [.list [], .int 0xFFFFFFFFFFFFFFFF, .bool true])]
    let c : Command := ⟨.set, "a\"b\\c\n\x01", "1.0.0", args⟩
    isVersion c.version = true ∧ Json.Exact 126 c.args ∧ read c.render = .ok c ∧
      c.render = "\x7b\"type\":\"set\",\"command\":\"a\\\"b\\\\c\\n\\u0001\"," ++
        "\"version\":\"1.0.0\",\"args\":\x7b\"k\":[-9223372036854775808,null]," ++
        "\"é\":[[],18446744073709551615,true]\x7d\x7d" := by
  intro args c
  have valid : isVersion c.version = true := by decide +kernel
  have exact : Json.Exact 126 c.args := by
    have first : Json.Exact 125 (.list [.int (-0x8000000000000000), .null]) := by
      refine .list (List.forall_mem_cons.mpr ⟨?_, List.forall_mem_singleton.mpr .null⟩)
      exact .int ⟨by decide, by decide⟩
    have second : Json.Exact 125 (.list [.list [], .int 0xFFFFFFFFFFFFFFFF, .bool true]) := by
      refine .list (List.forall_mem_cons.mpr ⟨.list (by simp), List.forall_mem_cons.mpr
        ⟨.int ⟨by decide, by decide⟩, List.forall_mem_singleton.mpr (.bool true)⟩⟩)
    exact .record (List.forall_mem_cons.mpr ⟨first, List.forall_mem_singleton.mpr second⟩)
  refine ⟨valid, exact, (read_render c valid exact).1, ?_⟩
  decide +kernel

end ScreenPreview.Control.Command
