import Bitchat.Data.InsertionMap
import Bitchat.Data.Text

/-! The table of trusted contacts in the stored configuration. -/
namespace Bitchat.Storage
open Str

/-- Peer ids, stripped and in lower case, with the fingerprint first seen. -/
abbrev Contacts := InsertionMap Str Str

namespace Contacts
variable [CaseMapping]

def cleaned (text : Str) : Str := CaseMapping.lower (strip text)

/-- Trust on first use: the verdict, and the table afterwards. -/
def verifyContact (contacts : Contacts) (peerId fingerprint : Str) : Bool × Contacts :=
  if peerId = [] ∨ fingerprint = [] then (false, contacts)
  else match contacts.get? (cleaned peerId) with
    | none => (true, contacts.set (cleaned peerId) (cleaned fingerprint))
    | some stored => (CaseMapping.lower stored = cleaned fingerprint, contacts)

end Contacts
end Bitchat.Storage
