import LayerGraph.Json.Record
import LayerGraph.Json.Value
import LayerGraph.Request

/-! # Requests in JSON -/

namespace LayerGraph

open Json

/-- The id that a JSON value stands for: a string, or the text of a number. -/
def NodeId.ofValue? : Value → Option NodeId
  | .text s => some ⟨s⟩
  | .number n => some (.ofNumber n)
  | _ => none

/-- Reads a node id. -/
def NodeId.reader (depth : Nat) : Reader NodeId :=
  (anyValue depth).check fun v => v.bind NodeId.ofValue?

/-- Reads a node id from a text of its own. -/
def NodeId.ofJson? (text : String) : Except Fault NodeId := parse (NodeId.reader maxDepth) text

/-- A node id as JSON text: always a string. -/
def NodeId.toJson (id : NodeId) : String := quote id.text

/-- Reads an array of node ids. -/
def NodeId.listReader (depth : Nat) : Reader (List NodeId) := array (inside depth NodeId.reader)

/-- Node ids as JSON text. -/
def NodeId.listJson (ids : List NodeId) : String := arrayText (ids.map NodeId.toJson)

namespace Descriptor

/-- The fields of a descriptor. -/
def fields (depth : Nat) : List (RecordField Descriptor) := [
  .required "name" (fun s d => { d with name := s }) string,
  .optional "parameterValues" (fun ps d => { d with parameters := ps }) (Json.parameters depth)]

/-- Reads a descriptor. -/
def reader (depth : Nat) : Reader Descriptor := record (inside depth fields) ⟨"", ∅⟩

/-- A descriptor as JSON text. -/
def toJson (d : Descriptor) : String :=
  objectText [("name", quote d.name), ("parameterValues", parametersText d.parameters)]

end Descriptor

namespace Layer

/-- The fields of a layer, where `child` reads the layers of a group. -/
def fields (depth : Nat) (child : Option (Reader Layer)) : List (RecordField Layer) := [
  .required "id" (fun id l => { l with id := id }) (NodeId.reader depth),
  .optional "kerasLayer" (fun d l => { l with descriptor := d })
    (nullable (Descriptor.reader depth)),
  .optional "inputLayers" (fun ids l => { l with sources := ids }) (NodeId.listReader depth),
  .optional "outputLayers" (fun ids l => { l with targets := ids }) (NodeId.listReader depth),
  .optional "children" (fun ls l => { l with children := ls }) (nullable (array child))]

/-- Reads a layer.  A layer inside a group is two brackets deeper than the group. -/
def reader (depth : Nat) : Reader Layer :=
  record (match depth with
    | 0 => none
    | 1 => some (fields 0 none)
    | depth + 2 => some (fields (depth + 1) (some (reader depth)))) ⟨⟨""⟩, none, [], [], none⟩

mutual
/-- A layer as JSON text, with all its fields. -/
def toJson : Layer → String
  | ⟨id, descriptor, sources, targets, children⟩ => objectText [
    ("id", id.toJson),
    ("kerasLayer", optionText Descriptor.toJson descriptor),
    ("inputLayers", NodeId.listJson sources),
    ("outputLayers", NodeId.listJson targets),
    ("children", match children with
      | none => "null"
      | some layers => arrayText (toJsonAll layers))]

/-- Several layers as JSON texts. -/
def toJsonAll : List Layer → List String
  | [] => []
  | l :: ls => l.toJson :: toJsonAll ls
end

end Layer

namespace Request

/-- The fields of a request. -/
def fields (depth : Nat) : List (RecordField Request) := [
  .required "layers" (fun ls r => { r with layers := ls }) (array (inside depth Layer.reader)),
  .optional "inputs" (fun ids r => { r with inputs := ids })
    (nullable (NodeId.listReader depth)),
  .optional "outputs" (fun ids r => { r with outputs := ids })
    (nullable (NodeId.listReader depth))]

/-- Reads a request. -/
def ofJson? (text : String) : Except Fault Request :=
  parse (record (inside maxDepth fields) ⟨[], none, none⟩) text

/-- A member for a list of nodes, unless the list is absent. -/
def endpointMember (name : String) (ids : Option (List NodeId)) : List (String × String) :=
  match ids with
  | some ids => [(name, NodeId.listJson ids)]
  | none => []

/-- A request as compact JSON text. -/
def toJson (r : Request) : String :=
  objectText (("layers", arrayText (Layer.toJsonAll r.layers)) ::
    endpointMember "inputs" r.inputs ++ endpointMember "outputs" r.outputs)

end Request

end LayerGraph
