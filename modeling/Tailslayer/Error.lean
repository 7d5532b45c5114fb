/-!
# Errors of the crate

One `Error` for every fallible function; a function that returns `Result<T>`
returns `Result T` here.
-/

namespace Tailslayer

/-- What the operating system reports through `io::Error`. -/
inductive IoError where
  | osError (code : Nat)
  | unexpectedEof (message : String)
deriving DecidableEq, Repr

inductive Error where
  | invalidConfig (message : String)
  | outOfBounds (index len : Nat)
  | capacityExceeded (len capacity : Nat)
  | unsupported (operation details : String)
  | validationFailed (message : String)
  | runtimeClosed
  | workerPanicked (count : Nat)
  | io (error : IoError)
deriving DecidableEq, Repr

abbrev Result (α : Type) := Except Error α

end Tailslayer
