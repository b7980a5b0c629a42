import ApiTypings.Declaration.Block
import ApiTypings.Exclusion.Resolve

/-!
Declaration files.

A file is a fixed header with the version of the API, the declarations of a tree, and a fixed
footer. Rendering resolves the tree first if some node is not resolved yet.
-/

namespace ApiTypings.Declaration

/-- The first two parts of a version, filled up with zero. -/
def majorMinor (version : String) : String :=
  let parts := Text.pieces '.' (if version = "" then "0.0" else version)
  Text.join "." ((parts ++ ["0"]).take 2)

/-- The lines in front of the declarations. -/
def headerLines (version : String) : List String :=
  ["// Type definitions for non-npm package Titanium " ++ majorMinor version,
    "// Project: https://github.com/appcelerator/titanium_mobile",
    "// Definitions by: tidocgen",
    "",
    "type Dictionary<T> = Partial<Omit<T, Extract<keyof T, Function>>>;",
    "interface " ++ proxyEventMap ++ " \x7b\x7d",
    ""]

def header (version : String) : String := Text.join "\n" (headerLines version) ++ "\n"

def footer : String := "import Ti = Titanium;\n"

/-- What the declarations of a tree depend on. -/
def contextOf (options : Options) (t : Tree) : Context := ⟨options, t.rootName, t.fullName⟩

/-- The declarations of a tree as it is. -/
def treeBody (options : Options) (t : Tree) : Report String :=
  bodyText (contextOf options t) t.rootBranch

/-- The declarations of the branch at a node. -/
def nodeText (options : Options) (t : Tree) (n : Node) : Report String :=
  branchText (contextOf options t) (t.branch n)

/-- The file of a tree, which is resolved first if need be. -/
def render (options : Options) (t : Tree) : Progress String :=
  let resolved := if Exclusion.isSettled t then ⟨t, [], .ok ()⟩ else Exclusion.resolveAll t
  resolved.andThen fun t _ =>
    let body := treeBody options t
    ⟨t, body.log, body.outcome.map fun text => header t.version ++ text ++ footer⟩

/-- The file of an API description. -/
def generate (options : Options) (apis : Json) : Report String := do
  Report.tell .info .declarations "Generating typescript definitions file..."
  let tree ← Tree.build apis options.rootName
  let (tree, _) ← (Exclusion.resolveAll tree).toReport
  let (tree, text) ← (render options tree).toReport
  Report.tell .info .declarations
    ("Declarations rendered for " ++ toString (tree.size - 1) ++ " nodes.")
  pure text

end ApiTypings.Declaration
