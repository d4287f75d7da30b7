import HouseRules.Action.Reader

/-!
# Reading phases

```text
phase play
do refill
allow
allow play-card then announce
not draw-empty draw-card
end-allow
do check-win
end-phase
```

The lines before the allow block run on entering the phase, those after it when an action has been
done. Without an allow block every line runs on entering.

Reference: `compile_phase`, `parse_allowed` (specification E2.3).
-/

namespace HouseRules

/-- Reads one line of an allow block. Reference: `statements.parse_allowed`. -/
def AllowedAction.read (s : Scope) (phase line : String) : Compiled AllowedAction := do
  let (precondition, words) ← ConditionRef.readGate s phase (s.tokens line)
  let actions := words.takeWhile (· != "then")
  let after := words.dropWhile (· != "then")
  let wrong : CompileError := .invalidComponent "phase" phase
    s!"allowed action line `{line}` must name exactly one action"
  match actions with
  | [name] =>
    if after.length == 1 then throw wrong
    let action ← s.performable name phase
    let responses ← (after.drop 1).mapM fun name => s.performable name phase
    return ⟨action, precondition, responses⟩
  | _ => throw wrong

namespace Phase

/-- Reads a line that runs something. Reference: `phases.parse_do`. -/
def readDo (s : Scope) (phase line : String) : Compiled Performable :=
  match s.tokens line with
  | ["do", name] => s.performable name phase
  | _ => .error (.invalidComponent "phase" phase s!"expected `do <action>`, found `{line}`")

/-- The lines of a phase before, inside and after its allow block. -/
def blocks (s : Scope) (name : String) (body : List String) :
    Compiled (List String × List String × List String) :=
  match body.findIdx? (· == "allow"), body.findIdx? (· == "end-allow") with
  | none, none => .ok (body, [], [])
  | some _, none =>
    .error (.missingKeyword (s.document ++ " phase `" ++ name ++ "`") "end-allow")
  | some opened, some closed =>
    if opened < closed then
      .ok (body.take opened, (body.take closed).drop (opened + 1), body.drop (closed + 1))
    else .error (.invalidComponent "phase" name "`end-allow` without `allow`")
  | none, some _ => .error (.invalidComponent "phase" name "`end-allow` without `allow`")

/-- Reads the phase of a name from its lines. Reference: `phases.compile_phase`. -/
def read (s : Scope) (name : String) (body : List String) : Compiled Phase := do
  let (before, inside, after) ← blocks s name body
  let start ← before.mapM (readDo s name)
  let allowed ← inside.mapM (AllowedAction.read s name)
  let finish ← after.mapM (readDo s name)
  return ⟨name, start, allowed, finish⟩

end Phase

end HouseRules
