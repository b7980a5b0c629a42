import ApiTypings.Api.Platform
import ApiTypings.Declaration.EventMap
import ApiTypings.Namespace.Branch
import ApiTypings.Settings.Options

/-!
Declaring nodes.

A type with instances is declared as a class, and in addition as a namespace if it contains other
types; any other node is a namespace if it contains something, and a class or an interface if it
does not. The members of the root are declared at the top level. A declaration is indented by one
tab for each level it is nested in.

Declaring reads a branch of resolved nodes and nothing else. Asking for a node that is not resolved
is a fault.
-/

namespace ApiTypings.Declaration

/-- What every declaration of one file depends on: the options, the root's name in the tree, and the
dotted names of the nodes. -/
structure Context where
  options : Options
  rootName : String
  nameAt : Path → String

/-- The indentation of a depth. -/
def indentation (depth : Nat) : String := String.ofList (List.replicate depth '\t')

namespace Context

def baseName (ctx : Context) (n : Node) : String := n.path.baseName ctx.rootName

def fullName (ctx : Context) (n : Node) : String := ctx.nameAt n.path

/-- The resolution of a node. -/
def resolved (ctx : Context) (n : Node) : Report Resolution :=
  match n.resolution with
  | some r => pure r
  | none => Report.ofExcept (.error (.unresolved (ctx.baseName n)))

/-- The event types of a node, if they are wanted. -/
def eventTypes (ctx : Context) (n : Node) (record : TypeRecord) (pad : String)
    (thisType : Option String) : Report (Option EventTypes) :=
  if ctx.options.generateEventTypes then
    Declaration.eventTypes (ctx.baseName n) record pad ctx.options.baseEventType thisType
  else pure none

end Context

/-- Lines with a line feed after the last one, if there is any. -/
def linesText (lines : List String) : String :=
  if lines.isEmpty then "" else Text.join "\n" lines ++ "\n"

/-- What opens a declaration at the top level. -/
def declareWord (p : Path) : String := if p.inGlobal then "declare " else ""

/-! ### Documentation comments -/

/-- The platforms and versions in which something appeared. -/
def sinceText (since : Since) : String :=
  Text.join ", " (since.map fun s => s.2 ++ " (" ++ platformName s.1 ++ ")")

/-- The lines of a type's documentation. -/
def docLines (record : TypeRecord) : List String :=
  (if record.summary = "" then []
    else (Text.pieces '\n' (Text.trim record.summary)).map escapeComment) ++
  (if record.since.isEmpty then [] else ["@since " ++ sinceText record.since]) ++
  (match record.deprecation with
    | some d => [escapeComment (Text.trim ("@deprecated " ++ d.notes))]
    | none => [])

/-- The documentation comment of a type, if there is anything to say. -/
def docComment (pad : String) (record : TypeRecord) : String :=
  let lines := docLines record
  if lines.isEmpty then ""
  else
    pad ++ "/**\n" ++
      String.join (lines.map fun line => Text.trimEnd (pad ++ " * " ++ line) ++ "\n") ++
      pad ++ " */\n"

/-! ### Classes and interfaces -/

/-- The global names that exist as interfaces already. -/
def knownInterfaces : List String := ["String", "JSON", "console"]

/-- The namespaces whose property `R` collides with another declaration of that name. -/
def collidingNamespaces : List String := ["Titanium.Android", "Titanium.App.Android"]

/-- Whether a property collides with another declaration of its name. -/
def collides (record : TypeRecord) (p : Property) : Bool :=
  (match p.name with | .str s => s == "R" | _ => false) &&
    collidingNamespaces.contains record.name

/-- A line that is commented out, with the reason above it. -/
def skippedLine (pad reason decl : String) : String :=
  pad ++ "// Skip. " ++ reason ++ "\n" ++ pad ++ "//" ++ decl

def collisionReason : String := "Redeclare block-scoped variable."

def invalidReason : String := "Invalid identifier."

/-- How a type without nested types is declared. -/
inductive DeclarationKind where
  | classDeclaration
  | interfaceDeclaration
  deriving DecidableEq, Repr

def DeclarationKind.keyword : DeclarationKind → String
  | .classDeclaration => "class"
  | .interfaceDeclaration => "interface"

/-- At the top level, known names and pseudo types that cannot be created are interfaces; all other
types are classes. -/
def Context.declarationKind (ctx : Context) (n : Node) (record : TypeRecord) : DeclarationKind :=
  if n.path.inGlobal ∧ (knownInterfaces.contains (ctx.baseName n) ∨
      (record.kind = .pseudo ∧ record.creatable = false)) then .interfaceDeclaration
  else .classDeclaration

/-- The line of a property in a class or an interface. -/
def classProperty (pad : String) (record : TypeRecord) (p : Property) (methods : List NameKey)
    (optional : Bool) : Report String := do
  if collides record p && (removal? p.deprecation).isNone then
    let line ← propertyLine "" p methods optional
    pure (skippedLine pad collisionReason line)
  else propertyLine pad p methods optional

/-- The members of one kind: a heading, the excluded names and the lines, if there are members. -/
def memberSection (pad heading : String) (excluded : List String) (lines : List String) :
    List String :=
  if lines.isEmpty then []
  else (pad ++ "// " ++ heading) :: exclusionLines pad excluded "" ++ lines

/-- The line that keeps a class from being created. -/
def constructorLines (pad : String) (kind : DeclarationKind) (record : TypeRecord) :
    List String :=
  if kind = .classDeclaration ∧ record.creatable = false then
    [pad ++ "protected constructor();"]
  else []

/-- The lines between the braces of a class or an interface. -/
def classBody (inner : String) (kind : DeclarationKind) (r : Resolution) (methods : List NameKey)
    (properties : List NameKey) (binding : Option EventBinding) : Report (List String) := do
  let propertyLines ← Report.each
    (fun p => classProperty inner r.record p methods (kind == .interfaceDeclaration))
    r.record.properties
  let methodLines ← Report.each (fun m => methodLine inner m properties binding "")
    r.record.methods
  pure (constructorLines inner kind r.record ++
    memberSection inner (r.record.name ++ " properties") r.excluded.properties propertyLines ++
    memberSection inner (r.record.name ++ " methods") r.excluded.methods methodLines)

/-- The clause that names the extended type, if it is wanted. -/
def extendsClause (ctx : Context) (record : TypeRecord) : String :=
  match ctx.options.writeInheritance, record.extends? with
  | true, some target => "extends " ++ target ++ " "
  | _, _ => ""

/-- A node as a class or an interface, with its event types in front. -/
def classText (ctx : Context) (n : Node) (r : Resolution) : Report String := do
  let pad := indentation n.path.depth
  let kind := ctx.declarationKind n r.record
  let methods ← Report.ofExcept (Json.comparableAll (r.record.methods.map (·.name)))
  let properties ← Report.ofExcept (Json.comparableAll (r.record.properties.map (·.name)))
  let events ← ctx.eventTypes n r.record pad (some (ctx.fullName n))
  let body ← classBody (pad ++ "\t") kind r methods properties (events.map (·.binding))
  let text := docComment pad r.record ++ pad ++ declareWord n.path ++ kind.keyword ++ " " ++
    ctx.baseName n ++ " " ++ extendsClause ctx r.record ++ "\x7b\n" ++ linesText body ++ pad ++
    "\x7d\n"
  pure (match events with
    | some e => Text.join "\n" e.declarations ++ "\n" ++ text
    | none => text)

/-! ### Namespaces -/

/-- What introduces a property outside a class. -/
def variableWord (p : Property) : String := if p.readOnly then "const" else "let"

/-- The line of a property in a namespace. -/
def namespaceProperty (pad : String) (record : TypeRecord) (p : Property)
    (methods : List NameKey) : Report String :=
  match removal? p.deprecation with
  | some d => do
    let commented ← Report.ofExcept (p.name.isAmong methods)
    pure (tombstone pad p.name.display d commented "const ")
  | none => do
    let type ← Report.ofLogged (TypeText.declared p.type)
    let decl := variableWord p ++ " " ++ p.name.display ++ ": " ++ type ++ ";"
    if collides record p then pure (skippedLine pad collisionReason decl)
    else
      let valid ← Report.ofExcept (isIdentifier p.name)
      pure (if valid then pad ++ decl else skippedLine pad invalidReason decl)

/-- The line of a method in a namespace. -/
def namespaceMethod (pad : String) (m : Method) (properties : List NameKey)
    (binding : Option EventBinding) : Report String := do
  let valid ← match removal? m.deprecation with
    | some _ => pure true
    | none => Report.ofExcept (isIdentifier m.name)
  if valid then methodLine pad m properties binding "function "
  else
    let decl ← methodLine "" m properties none "function "
    pure (skippedLine pad invalidReason decl)

/-- The properties of a namespace, after the names that it excludes. -/
def namespaceProperties (pad : String) (r : Resolution) : Report (List String) :=
  if r.record.properties.isEmpty then pure []
  else do
    let methods ← Report.ofExcept (Json.comparableAll (r.record.methods.map (·.name)))
    let lines ← Report.each (fun p => namespaceProperty pad r.record p methods)
      r.record.properties
    pure (exclusionLines pad r.excluded.properties "const " ++ lines)

/-- The methods of a namespace, after the names that it excludes. -/
def namespaceMethods (pad : String) (r : Resolution) (binding : Option EventBinding) :
    Report (List String) :=
  if r.record.methods.isEmpty then pure []
  else do
    let properties ← Report.ofExcept (Json.comparableAll (r.record.properties.map (·.name)))
    let lines ← Report.each (fun m => namespaceMethod pad m properties binding) r.record.methods
    pure (exclusionLines pad r.excluded.methods "const " ++ lines)

/-- The members of a namespace: its event types, properties and methods. -/
def namespaceMembers (ctx : Context) (n : Node) (pad : String) (r : Resolution) :
    Report (List String) := do
  let events ← ctx.eventTypes n r.record pad none
  let properties ← namespaceProperties pad r
  let methods ← namespaceMethods pad r (events.map (·.binding))
  pure ((events.map (·.declarations)).getD [] ++ properties ++ methods)

/-- A namespace around the declarations of what it contains. -/
def namespaceText (ctx : Context) (n : Node) (members : List String) (children : String) :
    String :=
  let pad := indentation n.path.depth
  pad ++ declareWord n.path ++ "namespace " ++ ctx.baseName n ++ " \x7b\n" ++ linesText members ++
    children ++ pad ++ "\x7d\n"

/-! ### Branches -/

/-- The comment in place of a node whose name cannot be declared. -/
def skippedNode (ctx : Context) (n : Node) : Report String := do
  Report.tell .debug .declarations ("Skipping invalid identifier '" ++ ctx.baseName n ++ "'.")
  pure (indentation n.path.depth ++ "// #Skip incorrect identifier \"" ++ ctx.baseName n ++
    "\";\n")

mutual

/-- The declarations of a branch. -/
def branchText (ctx : Context) : Branch → Report String
  | .fork n children =>
    if !isDeclarable (ctx.baseName n) then skippedNode ctx n
    else if (Branch.fork n children).isPlaceholder then pure ""
    else do
      let r ← ctx.resolved n
      if r.record.kind.instantiable then
        let text ← classText ctx n r
        if children.isEmpty then pure text
        else
          let nested ← branchTexts ctx children
          pure (text ++ namespaceText ctx n [] nested)
      else if children.isEmpty then classText ctx n r
      else
        let nested ← branchTexts ctx children
        let members ← namespaceMembers ctx n (indentation n.path.depth ++ "\t") r
        pure (namespaceText ctx n members nested)

/-- The declarations of several branches, one after another. -/
def branchTexts (ctx : Context) : List Branch → Report String
  | [] => pure ""
  | b :: rest => do
    let text ← branchText ctx b
    let others ← branchTexts ctx rest
    pure (text ++ others)

end

/-! ### The global scope -/

/-- A property of the root at the top level; a removed one is left out. -/
def globalProperty (p : Property) : Report (List String) :=
  match removal? p.deprecation with
  | some _ => pure []
  | none => do
    let type ← Report.ofLogged (TypeText.declared p.type)
    pure ["declare " ++ variableWord p ++ " " ++ p.name.display ++ ": " ++ type ++ ";"]

/-- A method of the root at the top level; a removed one is left out. -/
def globalMethod (m : Method) : Report (List String) :=
  match removal? m.deprecation with
  | some _ => pure []
  | none => do
    let parameters ← declareParameters m.parameters
    let returns ← Report.ofLogged (returnType m)
    pure ["declare function " ++ m.name.display ++ "(" ++ parameterText parameters ++ "): " ++
      returns ++ ";"]

/-- The members of the root. -/
def globalMembers (ctx : Context) (root : Node) : Report String := do
  let r ← ctx.resolved root
  let properties ← Report.each globalProperty r.record.properties
  let methods ← Report.each globalMethod r.record.methods
  pure (linesText (properties.flatten ++ methods.flatten))

/-- The declarations of everything in a tree. -/
def bodyText (ctx : Context) (root : Branch) : Report String := do
  let members ← globalMembers ctx root.node
  let types ← branchTexts ctx root.children
  pure (members ++ types)

end ApiTypings.Declaration
