import Listing.Document
import Listing.Schema.Basic

namespace Listing

namespace RelationKind

def name : RelationKind → String
  | oneToOne => "one_to_one"
  | oneToMany => "one_to_many"
  | manyToOne => "many_to_one"
  | manyToMany => "many_to_many"

def all : List RelationKind := [oneToOne, oneToMany, manyToOne, manyToMany]

def ofDatum? (f : DocumentFormat) (d : Datum) : Option RelationKind :=
  (f.choice? d).bind fun s ↦ all.find? fun k ↦ k.name == s

end RelationKind

namespace Column

def parts : List PartName := [⟨"name", []⟩, ⟨"isVirtual", ["is_virtual"]⟩]

/-- A column is written by its name alone or as a table of its parts. The table is looked at as a
whole first, so nothing in it may be unreadable. -/
def ofDatum? (d : Datum) : Option Column :=
  match d with
  | .text name => some ⟨name, false⟩
  | .table _ =>
    if d.isReadable then do
      let p ← Parts.of? parts d
      let name ← p.required "name" Datum.text?
      let isVirtual ← p.orElse "isVirtual" false Datum.bool?
      some ⟨name, isVirtual⟩
    else none
  | _ => none

def datum (c : Column) : Datum := .table [("name", .text c.name), ("isVirtual", .bool c.isVirtual)]

end Column

namespace JoinPair

def parts : List PartName := [⟨"local", []⟩, ⟨"referenced", []⟩]

def ofDatum? (d : Datum) : Option JoinPair := do
  let p ← Parts.of? parts d
  let localColumn ← p.required "local" Datum.text?
  let referenced ← p.required "referenced" Datum.text?
  some ⟨localColumn, referenced⟩

def datum (j : JoinPair) : Datum :=
  .table [("local", .text j.localColumn), ("referenced", .text j.referenced)]

end JoinPair

namespace JoinTable

def parts : List PartName := [⟨"table", []⟩, ⟨"source_column", []⟩, ⟨"target_column", []⟩]

def ofDatum? (d : Datum) : Option JoinTable := do
  let p ← Parts.of? parts d
  let table ← p.required "table" Datum.text?
  let source ← p.required "source_column" Datum.text?
  let target ← p.required "target_column" Datum.text?
  some ⟨table, source, target⟩

def datum (j : JoinTable) : Datum :=
  .table [("table", .text j.table), ("source_column", .text j.sourceColumn),
    ("target_column", .text j.targetColumn)]

end JoinTable

namespace Relation

def parts : List PartName :=
  [⟨"name", []⟩, ⟨"target", []⟩, ⟨"kind", []⟩, ⟨"join_columns", []⟩, ⟨"join_table", []⟩,
    ⟨"owning", []⟩]

def ofDatum? (f : DocumentFormat) (d : Datum) : Option Relation := do
  let p ← Parts.of? parts d
  let name ← p.required "name" Datum.text?
  let target ← p.required "target" Datum.text?
  let kind ← p.required "kind" (RelationKind.ofDatum? f)
  let joinColumns ← p.orElse "join_columns" [] (Datum.listOf? JoinPair.ofDatum?)
  let joinTable ← p.orElse "join_table" none (Datum.option? JoinTable.ofDatum?)
  let owning ← p.orElse "owning" none (Datum.option? Datum.bool?)
  some ⟨name, target, kind, joinColumns, joinTable, owning⟩

def datum (r : Relation) : Datum :=
  .table [("name", .text r.name), ("target", .text r.target), ("kind", .text r.kind.name),
    ("join_columns", .list (r.joinColumns.map JoinPair.datum)),
    ("join_table", optionDatum JoinTable.datum r.joinTable),
    ("owning", optionDatum .bool r.owning)]

end Relation

namespace Entity

def defaultPrimaryKey : List String := ["id"]

def parts : List PartName :=
  [⟨"name", []⟩, ⟨"table", []⟩, ⟨"primary_key", []⟩, ⟨"columns", []⟩, ⟨"relations", []⟩,
    ⟨"soft_delete_column", []⟩]

def ofDatum? (f : DocumentFormat) (d : Datum) : Option Entity := do
  let p ← Parts.of? parts d
  let name ← p.orElse "name" "" Datum.text?
  let table ← p.required "table" Datum.text?
  let primaryKey ← p.orElse "primary_key" defaultPrimaryKey texts?
  let columns ← p.orElse "columns" [] (Datum.listOf? Column.ofDatum?)
  let relations ← p.orElse "relations" [] (Datum.listOf? (Relation.ofDatum? f))
  let softDelete ← p.orElse "soft_delete_column" none (Datum.option? Datum.text?)
  some ⟨name, table, primaryKey, columns, relations, softDelete⟩

def datum (e : Entity) : Datum :=
  .table [("name", .text e.name), ("table", .text e.table),
    ("primary_key", textsDatum e.primaryKey), ("columns", .list (e.columns.map Column.datum)),
    ("relations", .list (e.relations.map Relation.datum)),
    ("soft_delete_column", optionDatum .text e.softDelete)]

end Entity

namespace Schema

def parts : List PartName := [⟨"entities", []⟩]

def ofDatum? (f : DocumentFormat) (d : Datum) : Option Schema := do
  let p ← Parts.of? parts d
  let entities ← p.orElse "entities" [] (Datum.keyedOf? (Entity.ofDatum? f))
  some ⟨entities⟩

def datum (s : Schema) : Datum :=
  .table [("entities", .table (s.entities.map fun (key, e) ↦ (key, e.datum)))]

def named (s : Schema) : Schema :=
  ⟨s.entities.map fun (key, e) ↦ (key, if e.name = "" then { e with name := key } else e)⟩

def documentName : DocumentFormat → String
  | .json => "schema JSON"
  | .toml => "schema TOML"

def ofDocument (f : DocumentFormat) (content : String) : Except QueryError Schema := do
  let s ← readDocument f (documentName f) (ofDatum? f) content
  let s := s.named
  s.check
  return s

def extension? (fileName : String) : Option String :=
  match Text.split '.' fileName with
  | [] | [_] | ["", _] => none
  | parts => parts.getLast?

def formatOf (fileName : String) : DocumentFormat :=
  if extension? fileName = some "json" then .json else .toml

def ofFile (fileName : String) (content : FileContent) : Except QueryError Schema := do
  let content ← content.get "schema file" fileName
  ofDocument (formatOf fileName) content

end Schema

end Listing
