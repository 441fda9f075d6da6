import OtiKiosk.Commands.Build
import OtiKiosk.Commands.Parse

/-!
The commands of `libotikiosk.c`: each builds its text, hands it to
`send_receive` and parses what comes back. Here `send_receive` is a parameter,
a function from the command, the room for the response and the time limit to a
return code and the bytes it copied.
-/

namespace OtiKiosk

open Ascii

abbrev SendReceive := Bytes → ℕ → ℕ → KioskRet × Bytes

/-- `char resp_buff[128] = ""`, after a response was copied into it. -/
def respBuff (resp : Bytes) : Bytes := resp ++ List.replicate (128 - resp.length) nul

/-! ### Commands without arguments -/

def getStatusCmd : Bytes :=
  ascii "\x7b\"jsonrpc\": \"2.0\", \"method\": \"GetStatus\", \"params\": \x7b\x7d, \"id\": 1\x7d"

def getKioskIdCmd : Bytes :=
  ascii "\x7b\"jsonrpc\": \"2.0\", \"method\": \"GetKioskID\", \"params\": \x7b\x7d, \"id\": 3\x7d"

def getKioskVersionCmd : Bytes :=
  ascii "\x7b\"jsonrpc\": \"2.0\", \"method\": \"GetVersion\", \"params\": \x7b\"SoftwareComponent\": \"otiKiosk\"\x7d, \"id\": 4\x7d"

def getReaderVersionCmd : Bytes :=
  ascii "\x7b\"jsonrpc\": \"2.0\", \"method\": \"GetVersion\", \"params\": \x7b\"SoftwareComponent\": \"Reader\"\x7d, \"id\": 5\x7d"

def getStatus (sendReceive : SendReceive) : KioskRet × KioskStatus :=
  let (ret, resp) := sendReceive getStatusCmd 128 500
  if ret ≠ .ok then (ret, .notReady)
  else
    let (ret, status) := parseGetStatus (respBuff resp) resp.length 1
    (ret, status.getD .notReady)

def cancelTransactionCmd : Bytes :=
  ascii "\x7b\"jsonrpc\":\"2.0\",\"method\":\"CancelTransaction\", \"params\": \x7b\x7d, \"id\":10\x7d"

/-- `LibOtiKiosk_CancelTransaction`; nothing when its parser does not return. -/
def cancelTransaction (sendReceive : SendReceive) : Option KioskRet :=
  let (status, resp) := sendReceive cancelTransactionCmd 128 500
  if status ≠ .ok then some status else parseCancelResp (respBuff resp) resp.length 10

def getText (cmd : Bytes) (id : ℤ) (n : ℕ) (sendReceive : SendReceive) : KioskRet × CharArray n :=
  let (ret, resp) := sendReceive cmd 128 500
  if ret ≠ .ok then (ret, .zero n)
  else parseRespResult (respBuff resp) resp.length id (.zero n)

def getKioskId : (n : ℕ) → SendReceive → KioskRet × CharArray n := getText getKioskIdCmd 3

def getKioskVersion : (n : ℕ) → SendReceive → KioskRet × CharArray n := getText getKioskVersionCmd 4

def getReaderVersion : (n : ℕ) → SendReceive → KioskRet × CharArray n := getText getReaderVersionCmd 5

/-! ### Commands that are answered by a truth value -/

def showMessageTemplate : Bytes :=
  ascii "\x7b\"jsonrpc\": \"2.0\", \"method\": \"ShowMessage\", \"params\": \x7b\"strLine1\":\"%s\", \"strLine2\":\"%s\"\x7d, \"id\": 2\x7d"

def preAuthorizeTemplate : Bytes :=
  ascii "\x7b\"jsonrpc\":\"2.0\",\"method\":\"PreAuthorize\", \"params\": \x7b\"amount\":%d, \"currency\":%d, \"timeout\":%d, \"fee\":%d, \"productID\":%d, \"continuous\":%s\x7d, \"id\":6\x7d"

def payTransactionTemplate : Bytes :=
  ascii "\x7b\"jsonrpc\":\"2.0\",\"method\":\"PayTransaction\", \"params\": \x7b\"amount\":%d, \"currency\":%d, \"timeout\":%d, \"fee\":%d, \"productID\":%d, \"continuous\":%s\x7d, \"id\":7\x7d"

def confirmTransactionTemplate : Bytes :=
  ascii "\x7b\"jsonrpc\":\"2.0\",\"method\":\"ConfirmTransaction\", \"params\": \x7b\"amount\":%d, \"fee\":%d, \"productID\":%d, \"transaction_Reference\":\"%s\"\x7d, \"id\":8\x7d"

def voidTransactionTemplate : Bytes :=
  ascii "\x7b\"jsonrpc\":\"2.0\",\"method\":\"VoidTransaction\", \"params\": \x7b\"transaction_Reference\":\"%s\"\x7d, \"id\":9\x7d"

def boolText (b : Bool) : CString :=
  if b then ⟨ascii "true", by decide⟩ else ⟨ascii "false", by decide⟩

/-- The arguments of the two commands that start a payment. -/
def paymentArgs (params : PaymentParameters) : List FormatArg :=
  [.int params.amountCents, .int (params.currencyCode.setWidth 32), .int params.timeoutSec,
    .int params.feeCents, .int params.productId, .str (boolText params.continuous)]

/-- What the commands that are answered by a truth value have in common. -/
def booleanCommand (template : Bytes) (args : List FormatArg) (expectedId : ℤ) (alloc : Bool)
    (sendReceive : SendReceive) : KioskRet :=
  match buildCommand alloc template args with
  | none => .memoryError
  | some cmd =>
      let (status, resp) := sendReceive cmd 128 500
      if status ≠ .ok then status else checkResponseOk (respBuff resp) resp.length expectedId

def showMessage (line1 line2 : CString) : Bool → SendReceive → KioskRet :=
  booleanCommand showMessageTemplate [.str line1, .str line2] 2

def preAuthorize (params : PaymentParameters) : Bool → SendReceive → KioskRet :=
  booleanCommand preAuthorizeTemplate (paymentArgs params) 6

/-- `LibOtiKiosk_PayTransaction`; it checks the id of `PreAuthorize`. -/
def payTransaction (params : PaymentParameters) : Bool → SendReceive → KioskRet :=
  booleanCommand payTransactionTemplate (paymentArgs params) 6

def confirmTransaction (amountCents feeCents productId : BitVec 32)
    (transactionReference : CString) : Bool → SendReceive → KioskRet :=
  booleanCommand confirmTransactionTemplate
    [.int amountCents, .int feeCents, .int productId, .str transactionReference] 8

def voidTransaction (transactionReference : CString) : Bool → SendReceive → KioskRet :=
  booleanCommand voidTransactionTemplate [.str transactionReference] 9

end OtiKiosk
