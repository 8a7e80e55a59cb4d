import TopicHub.Json.Writer
import TopicHub.Store.Basic

/-!
Files of records. A file names its version and itself and holds one list of records. A file of another
version is refused, one of another minor version is not.
-/

namespace TopicHub

open Json

structure RecordFile (α : Type) where
  name : String
  listName : String
  toJson : α → Value
  ofRaw? : Raw → Option α

namespace RecordFile

variable {α : Type}

def version : Nat := 1

def minorVersion : Nat := 1

def text (f : RecordFile α) (records : List α) : String :=
  (Value.object [
    ("version", int version),
    ("minor_version", int minorVersion),
    ("key", .string f.name),
    ("data", .object [(f.listName, .array (records.map f.toJson))])]).pretty

def content? (f : RecordFile α) (text : String) : Option (Nat × List α) := do
  let d ← Raw.read? text
  let s ← Slots.ofDocument? ["version", "minor_version", "key", "data"] d
  let found ← s.required? "version" (Document.natBelow? Number.span32)
  let _ ← s.required? "minor_version" (Document.natBelow? Number.span32)
  let _ ← s.required? "key" Document.text?
  let records ← s.required? "data" fun data => do
    let slots ← Slots.ofDocument? [f.listName] data
    slots.required? f.listName (Document.listOf? f.ofRaw?)
  pure (found, records)

def read (f : RecordFile α) (text : String) : Except StoreError (List α) :=
  match f.content? text with
  | none => .error .unreadable
  | some (found, records) =>
    if found = version then .ok records else .error (.versionMismatch f.name version found)

def rules : RecordFile Rule := ⟨"hub.rules", "rules", Rule.toJson, Rule.ofDocument?⟩

def knownTopics : RecordFile KnownTopic :=
  ⟨"hub.known_topics", "known_topics", KnownTopic.toJson, KnownTopic.ofDocument?⟩

def histories : RecordFile HistoryEntry :=
  ⟨"hub.topic_history", "entries", HistoryEntry.toJson, HistoryEntry.ofDocument?⟩

def devices : RecordFile Device :=
  ⟨"hub.microcontrollers", "microcontrollers", Device.toJson, Device.ofDocument?⟩

end RecordFile

end TopicHub
