import LayerGraph.Request.Descriptions
import LayerGraph.Program.OfGraph
import LayerGraph.Request.Json
import LayerGraph.Schedule

/-! # Compiling graphs

From a graph, a request or the text of a request to the text of a program. -/

namespace LayerGraph

/-- Generates the program of a graph whose nodes have been put in order. -/
def Graph.generate (g : Graph) (o : Options) (order : List NodeId) : Traced String := do
  match o.style with
  | .functional => g.functional o order
  | .sequential => g.sequential o (← g.chain order)
  | .auto =>
    match g.chain order with
    | .ok chain =>
      Traced.report [.sequentialChosen]
      g.sequential o chain
    | .error reason =>
      Traced.report [.functionalChosen reason]
      g.functional o order

/-- Compiles a graph. -/
def Graph.compile (g : Graph) (o : Options := {}) : Traced String := do
  Traced.report [.compilationStarted g.size g.inputs.length g.outputs.length, .schedulingStarted]
  let order ← g.schedule
  Traced.report [.orderReady order.length, .generationStarted o.target]
  let code ← g.generate o order
  Traced.report [.generationFinished code.utf8ByteSize]
  return code

/-- Compiles a request. -/
def Request.compile (r : Request) (o : Options := {}) : Traced String := do
  Traced.report [.requestReceived r.layers.length]
  let g ← Graph.ofRequest r
  g.compile o

/-- The answer to a request: the text of a program. -/
structure GeneratedFile where
  file : String
deriving DecidableEq, Repr

namespace GeneratedFile

/-- The fields of an answer. -/
def fields : List (Json.RecordField GeneratedFile) :=
  [.required "file" (fun s _ => ⟨s⟩) Json.string]

/-- Reads an answer. -/
def ofJson? (text : String) : Except Json.Fault GeneratedFile :=
  Json.parse (Json.record (some fields) ⟨""⟩) text

/-- An answer as JSON text. -/
def toJson (f : GeneratedFile) : String := Json.objectText [("file", Json.quote f.file)]

end GeneratedFile

/-- Compiles the text of a request. -/
def compileJson (body : String) (o : Options := {}) : Traced GeneratedFile := do
  match Request.ofJson? body with
  | .error fault => throw (.invalidPayload fault)
  | .ok r => return ⟨← r.compile o⟩

end LayerGraph
