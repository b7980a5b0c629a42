import ApiTypings.Api.Name
import ApiTypings.Api.Record

/-!
Surviving events.

Events are suppressed by their own type only, and of several events with one name the first
survives.
-/

namespace ApiTypings.Exclusion

/-- The events whose names are not among those given, each name only once. -/
def eventsBeyond (seen : List NameKey) : List Event → Except Fault (List Event)
  | [] => .ok []
  | e :: rest => do
    let key ← e.name.comparable
    if seen.contains key then eventsBeyond seen rest
    else
      let others ← eventsBeyond (key :: seen) rest
      pure (e :: others)

/-- The events of a type that it does not suppress. -/
def survivingEvents (record : TypeRecord) : Except Fault (List Event) :=
  eventsBeyond (record.excludes.events.map .text) record.events

end ApiTypings.Exclusion
