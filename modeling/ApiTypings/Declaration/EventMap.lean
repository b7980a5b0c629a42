import ApiTypings.Declaration.Member
import ApiTypings.Exclusion.Event

/-!
Event payloads and event maps.

An event with properties has a payload interface of its own; any other event has the base event
type. The map of a type lists its surviving events under their names, and the subscription methods
are narrowed against it.
-/

namespace ApiTypings.Declaration

/-- The interface that every event map extends. -/
def proxyEventMap : String := "ProxyEventMap"

/-- A character of an event's name as part of an interface name. -/
def payloadNameChar (c : Char) : Char := if isIdentifierChar c then c else '_'

def payloadName (owner event : String) : String :=
  owner ++ "_" ++ String.ofList (event.toList.map payloadNameChar) ++ "_Event"

/-- The payload interface of an event; the event's name has to be text. -/
def payloadTypeName (owner : String) (event : Json) : Except Fault String :=
  (matchable event).map (payloadName owner)

/-- An event of a map: its key, its type, and the lines of its payload interface, if it has one. -/
structure MappedEvent where
  key : String
  type : String
  payload : List String

/-- The line of a property in a payload interface. -/
def payloadLine (pad : String) (p : Property) : Report String := do
  let key ← Report.ofExcept (memberKey p.name)
  let type ← Report.ofLogged (TypeText.declared p.type)
  pure (pad ++ "\t" ++ key ++ ": " ++ type ++ ";")

def mapEvent (owner pad baseType : String) (e : Event) : Report MappedEvent :=
  if e.properties.isEmpty then do
    let key ← Report.ofExcept (quotedKey e.name)
    pure ⟨key, baseType, []⟩
  else do
    let payload ← Report.ofExcept (payloadTypeName owner e.name)
    let lines ← Report.each (payloadLine pad) e.properties
    let key ← Report.ofExcept (quotedKey e.name)
    let header := pad ++ "interface " ++ payload ++ " extends " ++ baseType ++ " \x7b"
    pure ⟨key, payload, header :: lines ++ [pad ++ "\x7d"]⟩

/-- What is declared for the events of a type, line by line, and the map that subscriptions are
narrowed against. -/
structure EventTypes where
  binding : EventBinding
  declarations : List String

/-- The lines that declare an event map after its payload interfaces. -/
def eventMapLines (pad mapName : String) (events : List MappedEvent) : List String :=
  events.flatMap (·.payload) ++
    (pad ++ "interface " ++ mapName ++ " extends " ++ proxyEventMap ++ " \x7b") ::
    events.map (fun e => pad ++ "\t" ++ e.key ++ ": " ++ e.type ++ ";") ++ [pad ++ "\x7d"]

/-- The event types of a record, nothing if none of its events survives. -/
def eventTypes (owner : String) (record : TypeRecord) (pad baseType : String)
    (thisType : Option String) : Report (Option EventTypes) := do
  let events ← Report.ofExcept (Exclusion.survivingEvents record)
  if events.isEmpty then pure none
  else
    let mapped ← Report.each (mapEvent owner pad baseType) events
    let mapName := owner ++ "EventMap"
    pure (some ⟨⟨mapName, thisType⟩, eventMapLines pad mapName mapped⟩)

end ApiTypings.Declaration
