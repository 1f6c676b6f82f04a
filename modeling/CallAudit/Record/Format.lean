import CallAudit.Record.Basic
import CallAudit.Record.Check

/-!
# Record formats

The fields of each kind of record, in the order in which they are checked and written. Unknown
fields are ignored.
-/

namespace CallAudit

open Checked

/-- The fields `file` and `line`. -/
def SourceLocation.format : RecordFormat SourceLocation where
  model := "SourceLocation"
  check := object "SourceLocation" fun fields =>
    (zip (required fields "file" text) (required fields "line" int)).map
      fun (file, line) => { file, line }
  toJson l := .obj [("file", .str l.file), ("line", .int l.line)]

/-- A text, or null if there is none. -/
def textOrNullJson : Option Text → Json
  | some t => .str t
  | none => .null

/-- The fields `requires_audit`, `audited` and `is_entry_point`, all of which may be left out. -/
def Marking.format : RecordFormat Marking where
  model := "Marking"
  check := object "Marking" fun fields =>
    (zip (optional fields "requires_audit" none textOrNull)
      (zip (optional fields "audited" none textOrNull)
        (optional fields "is_entry_point" false bool))).map
      fun (requiresAudit, audited, isEntryPoint) => { requiresAudit, audited, isEntryPoint }
  toJson m := .obj [
    ("requires_audit", textOrNullJson m.requiresAudit), ("audited", textOrNullJson m.audited),
    ("is_entry_point", .bool m.isEntryPoint)]

/-- The fields `marking` and `src_loc`. -/
def MarkedItem.format : RecordFormat MarkedItem where
  model := "MarkedItem"
  check := object "MarkedItem" fun fields =>
    (zip (required fields "marking" Marking.format.check)
      (required fields "src_loc" SourceLocation.format.check)).map
      fun (marking, location) => { marking, location }
  toJson m := .obj [
    ("marking", Marking.format.toJson m.marking),
      ("src_loc", SourceLocation.format.toJson m.location)]

/-- The fields `callee`, `is_lang_item`, `type_params` and `src_loc`. -/
def CallEdge.format : RecordFormat CallEdge where
  model := "CallEdge"
  check := object "CallEdge" fun fields =>
    (zip (required fields "callee" text)
      (zip (optional fields "is_lang_item" false bool)
        (zip (optional fields "type_params" [] (Checked.list text))
          (required fields "src_loc" SourceLocation.format.check)))).map
      fun (callee, isLangItem, typeParams, location) => { callee, isLangItem, typeParams, location }
  toJson e := .obj [
    ("callee", .str e.callee), ("is_lang_item", .bool e.isLangItem),
    ("type_params", .arr (e.typeParams.map .str)),
    ("src_loc", SourceLocation.format.toJson e.location)]

/-- The fields `name`, `marking` and `src_loc`. -/
def MarkingRecord.format : RecordFormat MarkingRecord where
  model := "MarkingRecordDTO"
  check := object "MarkingRecordDTO" fun fields =>
    (zip (required fields "name" text)
      (zip (required fields "marking" Marking.format.check)
        (required fields "src_loc" SourceLocation.format.check))).map
      fun (name, marking, location) => { name, marking, location }
  toJson r := .obj [
    ("name", .str r.name), ("marking", Marking.format.toJson r.marking),
    ("src_loc", SourceLocation.format.toJson r.location)]

/-- The fields `caller` and `edges`. -/
def CallRecord.format : RecordFormat CallRecord where
  model := "CallEdgeRecordDTO"
  check := object "CallEdgeRecordDTO" fun fields =>
    (zip (required fields "caller" text)
      (optional fields "edges" [] (Checked.list CallEdge.format.check))).map
      fun (caller, edges) => { caller, edges }
  toJson r := .obj [("caller", .str r.caller), ("edges", .arr (r.edges.map CallEdge.format.toJson))]

end CallAudit
