import HouseRules.Scope
import HouseRules.Text.Numeral

/-!
# Reading parameters

| token | parameter |
|---|---|
| `card`, `pile`, … | left open |
| `player.next` | a player |
| `pile.hand@next` | a pile, and whose |
| `piles.hand` | all piles of a declaration |
| `top.draw`, `bottom.draw` | the card at an end of a pile |
| `cards.hand` | the cards of a pile |
| `phase.main` | a phase |
| `-3` | a number |
| `"some text"` | a text |

The forms are tried in a fixed order: text, number, open parameter, and then the form that the word
before the first dot says. `Token.write` writes a parameter in the form it is read from.

Reference: `tokens.classify`, `tokens.parse_params` (specification E2.4).
-/

namespace HouseRules

/-- The owner a word names. -/
def OwnerRef.ofWord? : String → Option OwnerRef
  | "current" => some .current
  | "next" => some .next
  | "previous" => some .previous
  | _ => none

/-- The player a word names. -/
def PlayerRef.ofWord? : String → Option PlayerRef
  | "current" => some .current
  | "next" => some .next
  | "previous" => some .previous
  | "first" => some .first
  | _ => none

namespace Token

/-- Reads what follows the dot of a token that selects a pile. Reference: `tokens.pile_selector`. -/
def readSelector (s : Scope) (component token rest : String) : Compiled PileSelector := do
  let (name, owner) ←
    match Text.splitOnce '@' rest with
    | none => pure (rest, OwnerRef.current)
    | some (name, word) => do
      let owner ← orFail (s.unexpected "pile owner (current, next, previous)" token)
        (OwnerRef.ofWord? word)
      pure (name, owner)
  let slot ← s.slot name component
  return ⟨slot, owner⟩

/-- Reads a token whose form is given by the word before its first dot. -/
def readDotted (s : Scope) (component token form rest : String) : Compiled Token := do
  match form with
  | "player" =>
    return .player (← orFail (s.unexpected "player reference" token) (PlayerRef.ofWord? rest))
  | "pile" => return .pile (← readSelector s component token rest)
  | "top" => return .top (← readSelector s component token rest)
  | "bottom" => return .bottom (← readSelector s component token rest)
  | "cards" => return .contents (← readSelector s component token rest)
  | "piles" =>
    if rest.toList.contains '@' then throw (s.unexpected "pile declaration" token)
    return .piles (← readSelector s component token rest).slot
  | "phase" => return .phase (← s.phase rest component)
  | _ => throw (s.unexpected "parameter" token)

/-- Reads a parameter. Reference: `tokens.classify`. -/
def read (s : Scope) (component token : String) : Compiled Token :=
  match Text.unquote? token with
  | some content => .ok (.text content)
  | none =>
    match Text.integer? token with
    | some n => .ok (.integer n)
    | none =>
      match Kind.ofWord? token with
      | some kind => .ok (.placeholder kind)
      | none =>
        match Text.splitOnce '.' token with
        | some (form, rest) => readDotted s component token form rest
        | none => .error (s.unexpected "parameter" token)

/-- Reads parameters that no verb declares. Reference: `tokens.classify_all`. -/
def readAll (s : Scope) (component : String) (tokens : List String) : Compiled (List Token) :=
  tokens.mapM (read s component)

/-- Reads the parameter of a verb at `index`, which has to do for the declared kind. -/
def readFor (s : Scope) (component : String) (verb : Verb) (index : Nat) (token : String) :
    Compiled Token := do
  let parameter ← read s component token
  let expected ← orFail (s.unexpected "parameter" token) (verb.signature.kindAt? index)
  if parameter.kind.satisfies expected then return parameter
  else
    throw (s.unexpected (expected.keyword ++ " parameter of `" ++ verb.keyword ++ "`") token)

/-- Reads the parameters of a verb. Reference: `tokens.parse_params`. -/
def readParameters (s : Scope) (component : String) (verb : Verb) (tokens : List String) :
    Compiled (List Token) :=
  if verb.signature.accepts tokens.length then
    tokens.zipIdx.mapM fun (token, i) => readFor s component verb i token
  else
    .error (.wrongParameterCount component verb.keyword verb.signature.arity tokens.length)

end Token

end HouseRules
