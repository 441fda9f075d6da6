import OtiKiosk.Lib.Binary64
import OtiKiosk.Mjson.Find

/-!
The types of `libotikiosk_types.h`, and the `char` arrays that texts are
decoded into.
-/

namespace OtiKiosk

inductive KioskRet
  | ok | generalError | memoryError | parsingError | commError | negativeResp
  deriving DecidableEq

inductive KioskStatus
  | ready | transaction | update | unconfirmed | notReady | noKiosk | noReader | noTerminalId
  | error
  deriving DecidableEq

inductive TransactionStatus
  | error | ok | declined | voided | timeout | cancelled | localMifare
  deriving DecidableEq

structure CharArray (n : ℕ) where
  bytes : Bytes
  size : bytes.length = n
  deriving DecidableEq

namespace CharArray

variable {n : ℕ}

def zero (n : ℕ) : CharArray n := ⟨List.replicate n Ascii.nul, List.length_replicate⟩

def write (a : CharArray n) (w : Bytes) : CharArray n where
  bytes := (w ++ a.bytes.drop w.length).take n
  size := by
    simp only [List.length_take, List.length_append, List.length_drop, a.size]
    omega

/-- `a[i] = '\0'` -/
def terminate (a : CharArray n) (i : ℕ) : CharArray n where
  bytes := a.bytes.set i Ascii.nul
  size := by simp [a.size]

def str (a : CharArray n) : Bytes := cString a.bytes

end CharArray

structure PaymentParameters where
  amountCents : BitVec 32
  feeCents : BitVec 32
  productId : BitVec 32
  currencyCode : BitVec 16
  timeoutSec : BitVec 32
  continuous : Bool
  deriving DecidableEq

structure PaymentResponse where
  status : TransactionStatus
  errorCode : ℤ
  errorMessage : CharArray 100
  amountRequested : Double
  amountAuthorized : Double
  transactionReference : CharArray 128
  partialPan : CharArray 20
  cardType : CharArray 32
  cardId : CharArray 32
  cardToken : CharArray 128
  deriving DecidableEq

/-- What `memset` leaves. -/
def PaymentResponse.zero : PaymentResponse where
  status := .error
  errorCode := 0
  errorMessage := .zero 100
  amountRequested := .finite false .zero
  amountAuthorized := .finite false .zero
  transactionReference := .zero 128
  partialPan := .zero 20
  cardType := .zero 32
  cardId := .zero 32
  cardToken := .zero 128

end OtiKiosk
