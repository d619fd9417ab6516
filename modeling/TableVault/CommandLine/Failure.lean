import TableVault.Error

namespace TableVault.CommandLine

/-!
# Failures as the command line shows them

* `describe` — an error by its structure: the name of its cause and what belongs to it,
  texts between quotes.
-/

/-- A cause with one cause inside. -/
def wrap (name inner : String) : String :=
  name ++ "(" ++ inner ++ ")"

/-- A cause with named details. -/
def withFields (name : String) (fields : List (String × String)) : String :=
  name ++ " \x7b " ++ String.intercalate ", " (fields.map fun f => f.1 ++ ": " ++ f.2) ++ " \x7d"

/-- A cause with a message. -/
def withMessage (name message : String) : String :=
  withFields name [("message", Quoted.quote message)]

/-- The class of an operating system fault. -/
def systemKind : Storage.SystemFault → String
  | .noSuchFile => "NotFound"
  | .fileExists => "AlreadyExists"
  | .notDirectory => "NotADirectory"
  | .isDirectory => "IsADirectory"
  | .nameTooLong => "InvalidFilename"

/-- A file system fault by its structure. -/
def describeIo (fault : Storage.IoFault) : String :=
  match fault with
  | .missing _ => withFields "Custom" [("kind", "NotFound"), ("error", Quoted.quote fault.message)]
  | .system f =>
    withFields "Os" [("code", toString f.number), ("kind", systemKind f),
      ("message", Quoted.quote f.message)]
  | .nullInPath =>
    withFields "Error" [("kind", "InvalidInput"), ("message", Quoted.quote fault.message)]
  | .notDatabase => wrap "Kind" "InvalidData"
  | .other message => withFields "Custom" [("kind", "Other"), ("error", Quoted.quote message)]

/-- A storage error by its structure. -/
def describeStorage : Storage.StorageError → String
  | .io fault => wrap "Io" (describeIo fault)
  | .locked path => withFields "Locked" [("path", Quoted.quote path)]
  | .engine message => wrap "Engine" (Quoted.quote message)
  | .corrupted message => wrap "Corrupted" (Quoted.quote message)
  | .closed => "Closed"

/-- A codec error by its structure. -/
def describeCodec : CodecError → String
  | .encodingFailed message => withMessage "EncodingFailed" message
  | .decodingFailed _ message => withMessage "DecodingFailed" message
  | .unknownFlag flag => withFields "UnknownFlag" [("flag", toString flag.toNat)]

/-- An error by its structure. -/
def describe : VaultError → String
  | .storage cause => wrap "Storage" (describeStorage cause)
  | .codec cause => wrap "Codec" (describeCodec cause)
  | .locked path => withFields "Locked" [("path", Quoted.quote path)]
  | .badPadlock => "BadPadlock"
  | .invalidName name fault =>
    withFields "InvalidName" [("name", Quoted.quote name), ("reason", Quoted.quote fault.message)]
  | .invalidLockState fault => withMessage "InvalidLockState" fault.message
  | .encryptionFailed message => withMessage "EncryptionFailed" message
  | .decryptionFailed message => withMessage "DecryptionFailed" message
  | .invalidKeySize expected actual =>
    withFields "InvalidKeySize" [("expected", toString expected), ("actual", toString actual)]
  | .keyDerivationFailed message => withMessage "KeyDerivationFailed" message

end TableVault.CommandLine
