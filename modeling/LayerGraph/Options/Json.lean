import LayerGraph.Json.Record
import LayerGraph.Json.Writer
import LayerGraph.Options

/-! # Options in JSON

Every field may be left out and then has its default. -/

namespace LayerGraph

open Json

namespace Options

/-- The targets by name. -/
def targets : List (String × Target) := [("keras", .keras), ("tfjs", .tensorFlowJs)]

/-- The styles by name. -/
def styles : List (String × Style) :=
  [("functional", .functional), ("sequential", .sequential), ("auto", .auto)]

/-- The places to import Keras from, by name. -/
def imports : List (String × KerasImport) :=
  [("standalone", .standalone), ("tensorflow", .tensorFlow)]

/-- The name that a table gives to a choice. -/
def nameIn {α : Type} [DecidableEq α] (table : List (String × α)) (choice : α) : String :=
  ((table.find? fun e => e.2 = choice).map Prod.fst).getD ""

/-- The fields of options, with room for `depth` more brackets. -/
def fields (depth : Nat) : List (RecordField Options) := [
  .optional "target" (fun t o => { o with target := t }) (variant depth targets),
  .optional "style" (fun s o => { o with style := s }) (variant depth styles),
  .optional "keras_import" (fun i o => { o with kerasImport := i }) (variant depth imports),
  .optional "function_name" (fun n o => { o with functionName := n }) (nullable string)]

/-- Reads options. -/
def ofJson? (text : String) : Except Fault Options :=
  parse (record (inside maxDepth fields) {}) text

/-- Options as compact JSON text, with all fields. -/
def toJson (o : Options) : String := objectText [
  ("target", quote (nameIn targets o.target)),
  ("style", quote (nameIn styles o.style)),
  ("keras_import", quote (nameIn imports o.kerasImport)),
  ("function_name", optionText quote o.functionName)]

end Options

end LayerGraph
