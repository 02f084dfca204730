import Mathlib.Data.Nat.Notation

namespace Geata.Payments

/-!
# Cashu prices and errors
-/

/-- A site's Cashu price in sats and the mint it is paid at. -/
structure PaymentPolicy where
  price : UInt32
  mint : String
  deriving DecidableEq

/-- What a failed payment tells the client. -/
inductive PaymentError where
  | invalid
  | unavailable
  deriving DecidableEq

end Geata.Payments
