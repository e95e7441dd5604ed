import ScriptTree.Parse
import ScriptTree.Text.Lines

/-!
A workspace: the documents that are being edited, numbered in the order of their arrival, and the
nesting limit that all of them are parsed with. What is known about a document always follows from
its present text.
-/

namespace ScriptTree

structure Document where
  path : String
  text : String
  deriving DecidableEq, Repr, Inhabited

structure Workspace where
  limit : Nat
  documents : Array Document
  deriving DecidableEq, Repr, Inhabited

namespace Workspace

def empty (limit : Nat) : Workspace :=
  ⟨limit, #[]⟩

def add (workspace : Workspace) (document : Document) : Nat × Workspace :=
  (workspace.documents.size,
    { workspace with documents := workspace.documents.push document })

def document? (workspace : Workspace) (id : Nat) : Option Document :=
  workspace.documents[id]?

def edit (workspace : Workspace) (id : Nat) (change : Document → Document) : Workspace :=
  { workspace with documents := workspace.documents.modify id change }

def setText (workspace : Workspace) (id : Nat) (text : String) : Workspace :=
  workspace.edit id fun document => { document with text }

def setPath (workspace : Workspace) (id : Nat) (path : String) : Workspace :=
  workspace.edit id fun document => { document with path }

def parse (workspace : Workspace) (document : Document) : Except BuildError Parse :=
  parseBounded document.text workspace.limit

end Workspace

structure PlacedDiagnostic where
  place : Option Place
  diagnostic : Diagnostic
  deriving DecidableEq, Repr, Inhabited

def Workspace.diagnostics (workspace : Workspace) (document : Document) :
    Except BuildError (List PlacedDiagnostic) := do
  let parse ← workspace.parse document
  let table := LineTable.ofText document.text
  return parse.diagnostics.map fun diagnostic =>
    ⟨table.place? diagnostic.span.start, diagnostic⟩

end ScriptTree
