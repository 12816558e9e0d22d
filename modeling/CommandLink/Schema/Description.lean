import CommandLink.Schema.FieldType

/-!
# Schema descriptions

A description lists message types: their ids, names and ordered fields. It is data as it comes from
a file or a program and need not obey any rule; `Schema.WellFormed` says which descriptions do.
-/

namespace CommandLink

/-- One named field of a message record. -/
structure Field where
  name : String
  type : FieldType
deriving DecidableEq, Repr

/-- One message type. The order of the fields is their order on the wire. -/
structure Message where
  id : UInt16
  name : String
  fields : List Field
deriving DecidableEq, Repr

/-- The bytes that one record occupies. -/
def Message.wireSize (m : Message) : Nat :=
  m.fields.foldr (fun f size => f.type.wireSize + size) 0

/-- The message types that two peers agree on. -/
structure Description where
  messages : List Message
deriving DecidableEq, Repr

namespace Description

/-- The first message type with the given id. -/
def message? (d : Description) (id : UInt16) : Option Message := d.messages.find? (·.id == id)

/-- The message types in ascending order of their ids; equal ids keep the order they came in. -/
def sorted (d : Description) : List Message :=
  d.messages.mergeSort fun a b => decide (a.id ≤ b.id)

end Description

end CommandLink
