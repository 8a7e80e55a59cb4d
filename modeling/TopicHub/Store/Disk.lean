import TopicHub.Table

/-!
A directory of text files. Writing may be impossible, and then every file stays as it was.
-/

namespace TopicHub

structure Disk where
  files : Table String
  writable : Bool

namespace Disk

def empty : Disk := ⟨.empty, true⟩

def read? (d : Disk) (name : String) : Option String := d.files.get? name

def write? (d : Disk) (name content : String) : Option Disk :=
  if d.writable then some { d with files := d.files.insert name content } else none

/-- The name under which a new content is written before it takes the place of the old one. -/
def interimName (name : String) : String := name ++ ".tmp"

def replace? (d : Disk) (name content : String) : Option Disk :=
  (d.write? (interimName name) content).bind fun d =>
    ({ d with files := d.files.erase (interimName name) }).write? name content

def delete (d : Disk) (name : String) : Disk := { d with files := d.files.erase name }

end Disk

end TopicHub
