import Sshnack.CArrays
import Sshnack.CScan

/-!
# The terminal client

The state of the client and what each key does to it. The answers of the server are inputs: while
one key is handled each call of the API is made at most once, so an `Api` gives the outcome of each.
In place of the connection the state keeps the calls issued so far. A handler has no result if it
indexes an array outside its bounds. Signed arithmetic wraps. The memory that `app_refresh` and
`app_free` release is left out.
-/

namespace Sshnack.Tui

/-- `product_t` of the client. -/
structure Product where
  slotId : Int32
  itemId : Int32
  priceGr : Int32
  stockQty : Int32
  name : CString
  deriving DecidableEq

inductive InputMode where
  | browse
  | prompt
  deriving DecidableEq

inductive PromptAction where
  | none
  | deposit
  | restock
  | price
  deriving DecidableEq

/-- The values of `api_status_t` other than `API_OK`. -/
inductive ApiError where
  | network
  | http
  | parse
  deriving DecidableEq

inductive ApiCall where
  | getStock
  | getBalance
  | deposit (amountGr : Int32)
  | purchase (slotId : Int32)
  | refund
  | restock (slotId qty : Int32)
  | setPrice (itemId priceGr : Int32)
  deriving DecidableEq

/-- A call and the value of the admin flag when it was issued. -/
structure Issued where
  admin : Bool
  call : ApiCall
  deriving DecidableEq

/-- The outcome of each call of the API; the number of products is an `int`. -/
structure Api where
  getStock : Except ApiError { products : List Product // products.length < 2 ^ 31 }
  getBalance : Except ApiError Int32
  deposit : Except ApiError Unit
  purchase : Except ApiError Unit
  refund : Except ApiError Int32
  restock : Except ApiError Unit
  setPrice : Except ApiError Unit

/-- The codes that ncurses has for the keys without a character. -/
structure Keypad where
  up : Int32
  down : Int32
  left : Int32
  right : Int32
  enter : Int32
  backspace : Int32
  distinct : [up, down, left, right, enter, backspace].Nodup
  no_character : ∀ key ∈ [up, down, left, right, enter, backspace], 255 < key

/-- The codes in `curses.h`. -/
def ncurses : Keypad := ⟨259, 258, 260, 261, 343, 263, by simp, by simp⟩

def msgLen : ℕ := 128

def promptLabelLen : ℕ := 48

def promptBufLen : ℕ := 16

def konamiLen : ℕ := 10

/-- `app_t`. -/
structure App where
  client : List Issued
  products : Option (List Product)
  count : Int32
  balanceGr : Int32
  selected : Int32
  admin : Bool
  running : Bool
  serverDown : Bool
  mode : InputMode
  pending : PromptAction
  promptLabel : CString
  promptBuf : Vector UInt8 promptBufLen
  message : CString
  konami : Vector Int32 konamiLen
  konamiPos : Int32
  deriving DecidableEq

def intMax : Int32 := 2147483647

def intMin : Int32 := -2147483648

def keyOf (c : Char) : Int32 := Int32.ofNat c.toNat

def App.say (a : App) (text : CString) : App := { a with message := snprintf msgLen text }

def App.issue (a : App) (call : ApiCall) : App :=
  { a with client := a.client ++ [⟨a.admin, call⟩] }

/-- `a->products[i]`. -/
def App.product (a : App) (i : Int32) : Option Product :=
  a.products.bind fun products => load products i.toInt

/-- `for (int i = 0; i < a->count; i++)` with a body that reads `a->products[i]`. -/
def App.forProducts {σ : Type*} (a : App) (body : σ → Int32 → Product → σ) (s : σ) : Option σ :=
  (List.range a.count.toNatClampNeg).foldlM
    (fun s i => (a.product (Int32.ofNat i)).map (body s (Int32.ofNat i))) s

/-! ### Rows, amounts and numbers -/

def appSlotRow (slotId : Int32) : Int32 := slotId / 10

def appSlotCol (slotId : Int32) : Int32 := slotId % 10

/-- `%02d`. -/
def formatTwo (x : Int32) : CString := if 0 ≤ x ∧ x < 10 then 48 :: formatInt x else formatInt x

def appFmtMoney (gr : Int32) (n : ℕ) : CString :=
  snprintf n (formatInt (gr / 100) ++ ascii "." ++ formatTwo (gr % 100))

/-- The first loop of `parse_zl_to_gr`: `zl`, `seen_digit` and the text at `s[i]`. -/
def parseZl : CString → Int64 → Bool → Option (Int64 × Bool × CString)
  | [], zl, seenDigit => some (zl, seenDigit, [])
  | c :: s, zl, seenDigit =>
      if c = 46 then some (zl, seenDigit, c :: s)
      else if c < 48 ∨ 57 < c then none
      else
        let zl := zl * 10 + (Int64.ofNat c.toNat - 48)
        if 99999999 < zl then none else parseZl s zl true

/-- The second loop: `gr` and `frac_digits`. -/
def parseGr : CString → Int64 → ℕ → Option (Int64 × ℕ)
  | [], gr, fracDigits => some (gr, fracDigits)
  | c :: s, gr, fracDigits =>
      if c < 48 ∨ 57 < c then none
      else if fracDigits < 2 then
        parseGr s (gr * 10 + (Int64.ofNat c.toNat - 48)) (fracDigits + 1)
      else none

def parseZlToGr (s : CString) : Int32 :=
  let result : Option Int32 := do
    let (zl, seenDigit, rest) ← parseZl s 0 false
    let gr ← match rest with
      | [] => some 0
      | _ :: fraction => do
          let (gr, fracDigits) ← parseGr fraction 0 0
          some (if fracDigits = 1 then gr * 10 else gr)
    if seenDigit = false then none
    else if 2147483647 < zl * 100 + gr then none
    else some (zl * 100 + gr).toInt32
  result.getD (-1)

/-- The loop of `parse_pos_int`. -/
def parsePos : CString → Int64 → Option Int64
  | [], v => some v
  | c :: s, v =>
      if c < 48 ∨ 57 < c then none
      else
        let v := v * 10 + (Int64.ofNat c.toNat - 48)
        if 2147483647 < v then none else parsePos s v

def parsePosInt (s : CString) : Int32 :=
  if s = [] then -1
  else
    match parsePos s 0 with
    | none => -1
    | some v => if 0 < v then v.toInt32 else -1

/-! ### Refreshing -/

def setStatus (st : ApiError) (what : String) (a : App) : App :=
  match st with
  | .network => { a with serverDown := true }.say (ascii "Cannot reach server")
  | .http => a.say (ascii what ++ ascii ": server rejected request")
  | .parse => a.say (ascii what ++ ascii ": unexpected server response")

/-- The first half of `app_refresh`. -/
def refreshStock (api : Api) (a : App) : App :=
  let a := a.issue .getStock
  match api.getStock with
  | .ok prods =>
      let count := Int32.ofNat prods.1.length
      { a with
        products := some prods.1
        count := count
        selected :=
          if count ≤ a.selected then (if 0 < count then count - 1 else 0) else a.selected }
  | .error st => setStatus st "stock" a

/-- The second half of `app_refresh`. -/
def refreshBalance (api : Api) (a : App) : App :=
  let a := a.issue .getBalance
  match api.getBalance with
  | .ok bal => { a with balanceGr := bal }
  | .error st => setStatus st "balance" a

def appRefresh (api : Api) (a : App) : App :=
  refreshBalance api (refreshStock api { a with serverDown := false })

/-- What `app_init` has written before it refreshes. -/
def App.cleared : App where
  client := []
  products := none
  count := 0
  balanceGr := 0
  selected := 0
  admin := false
  running := true
  serverDown := false
  mode := .browse
  pending := .none
  promptLabel := []
  promptBuf := Vector.replicate promptBufLen 0
  message := []
  konami := Vector.replicate konamiLen 0
  konamiPos := 0

def appInit (api : Api) : App := { appRefresh api .cleared with message := [] }

/-! ### Moving -/

def moveHorizontal (dir : Int32) (a : App) : App :=
  if a.count = 0 then a else { a with selected := (a.selected + dir + a.count) % a.count }

def colDist (desiredCol c : Int32) : Int32 :=
  if desiredCol < c then c - desiredCol else desiredCol - c

/-- The body of the loop in `find_in_row`, on `best` and `best_dist`. -/
def nearest (targetRow desiredCol : Int32) (found : Int32 × Int32) (i : Int32) (p : Product) :
    Int32 × Int32 :=
  if appSlotRow p.slotId = targetRow ∧ colDist desiredCol (appSlotCol p.slotId) < found.2 then
    (i, colDist desiredCol (appSlotCol p.slotId))
  else found

def findInRow (a : App) (targetRow desiredCol : Int32) : Option Int32 :=
  (a.forProducts (nearest targetRow desiredCol) (-1, intMax)).map Prod.fst

/-- The body of the first loop in `move_vertical`, on `minr` and `maxr`. -/
def widen (rows : Int32 × Int32) (_ : Int32) (p : Product) : Int32 × Int32 :=
  (if appSlotRow p.slotId < rows.1 then appSlotRow p.slotId else rows.1,
    if rows.2 < appSlotRow p.slotId then appSlotRow p.slotId else rows.2)

/-- A loop `while (target >= minr && target <= maxr)` of `move_vertical`. It takes at most `fuel`
steps or has no result. -/
def seekRow (a : App) (dir minr maxr col : Int32) : ℕ → Int32 → Option Int32
  | 0, target => if minr ≤ target ∧ target ≤ maxr then none else some (-1)
  | fuel + 1, target =>
      if minr ≤ target ∧ target ≤ maxr then do
        let idx ← findInRow a target col
        if 0 ≤ idx then some idx else seekRow a dir minr maxr col fuel (target + dir)
      else some (-1)

/-- The two searches of `move_vertical`: in the direction of the move, then from the other end. -/
def verticalTarget (a : App) (dir minr maxr : Int32) (p : Product) : Option Int32 :=
  let fuel := (maxr.toInt - minr.toInt + 1).toNat
  let seek := seekRow a dir minr maxr (appSlotCol p.slotId) fuel
  (seek (appSlotRow p.slotId + dir)).bind fun idx =>
    if idx < 0 then seek (if 0 < dir then minr else maxr) else some idx

def moveVertical (dir : Int32) (a : App) : Option App :=
  if a.count = 0 then some a
  else do
    let p ← a.product a.selected
    let rows ← a.forProducts widen (intMax, intMin)
    let idx ← verticalTarget a dir rows.1 rows.2 p
    some (if 0 ≤ idx then { a with selected := idx } else a)

/-! ### Prompts and purchases -/

def openPrompt (action : PromptAction) (label : String) (a : App) : Option App :=
  if a.count = 0 ∧ action ≠ .deposit then some (a.say (ascii "No slot selected"))
  else do
    let buf ← store a.promptBuf 0 0
    some { a with
      mode := .prompt, pending := action
      promptLabel := (ascii label).take (promptLabelLen - 1), promptBuf := buf }

def closePrompt (a : App) : Option App := do
  let buf ← store a.promptBuf 0 0
  some { a with mode := .browse, pending := .none, promptBuf := buf }

/-- What the outcome of a call puts on the screen. -/
def report (outcome : Except ApiError Unit) (done failed : CString) (a : App) : App :=
  match outcome with
  | .ok _ => a.say done
  | .error .network => { a with serverDown := true }.say (ascii "Cannot reach server")
  | .error _ => a.say failed

def doBuy (api : Api) (a : App) : Option App :=
  if a.count = 0 then some a
  else do
    let p ← a.product a.selected
    if p.stockQty ≤ 0 then some (a.say (ascii "Sold out"))
    else if a.balanceGr < p.priceGr then
      some (a.say (ascii "Insufficient balance (need " ++ appFmtMoney p.priceGr 16 ++ ascii " zl)"))
    else
      let bought := report api.purchase (ascii "Dispensing " ++ p.name ++ ascii "!")
        (ascii "Purchase failed") (a.issue (.purchase p.slotId))
      some (if api.purchase = .error .network then bought else appRefresh api bought)

def doCashout (api : Api) (a : App) : App :=
  let a := a.issue .refund
  match api.refund with
  | .ok refund =>
      appRefresh api (a.say (ascii "Cashed out " ++ appFmtMoney refund 16 ++ ascii " zl"))
  | .error .network => { a with serverDown := true }.say (ascii "Cannot reach server")
  | .error _ => a.say (ascii "Cash out failed")

/-- The branches of `confirm_prompt` for the pending action. -/
def confirmAction (api : Api) (p : Option Product) (a : App) : Option App :=
  match a.pending, p with
  | .deposit, _ => do
      let gr := parseZlToGr (← cstr a.promptBuf)
      some (if gr ≤ 0 then a.say (ascii "Invalid amount")
        else report api.deposit (ascii "Deposited " ++ appFmtMoney gr 16 ++ ascii " zl")
          (ascii "Deposit failed") (a.issue (.deposit gr)))
  | .restock, some p => do
      let q := parsePosInt (← cstr a.promptBuf)
      some (if q < 0 then a.say (ascii "Invalid quantity")
        else report api.restock (ascii "Restocked slot " ++ formatInt p.slotId ++ ascii " (+" ++
            formatInt q ++ ascii ")") (ascii "Restock failed") (a.issue (.restock p.slotId q)))
  | .price, some p => do
      let gr := parseZlToGr (← cstr a.promptBuf)
      some (if gr ≤ 0 then a.say (ascii "Invalid price")
        else report api.setPrice (ascii "Updated price of " ++ p.name) (ascii "Price update failed")
          (a.issue (.setPrice p.itemId gr)))
  | _, _ => some a

/-- The pointer `p` of `confirm_prompt`. -/
def App.pointed (a : App) : Option (Option Product) :=
  if 0 < a.count then (a.product a.selected).map some else some none

def confirmPrompt (api : Api) (a : App) : Option App := do
  let p ← a.pointed
  let closed ← closePrompt (← confirmAction api p a)
  some (if closed.serverDown then closed else appRefresh api closed)

/-! ### Keys -/

def konamiSeq (keypad : Keypad) : Vector Int32 konamiLen :=
  #v[keypad.up, keypad.up, keypad.down, keypad.down, keypad.left, keypad.right, keypad.left,
    keypad.right, keyOf 'b', keyOf 'a']

/-- The first statement of `feed_konami`: the window and the position behind its last key. -/
def konamiWindow (key : Int32) (a : App) : Option (Vector Int32 konamiLen × Int32) :=
  if a.konamiPos < 10 then (store a.konami a.konamiPos.toInt key).map fun w => (w, a.konamiPos + 1)
  else some (a.konami.tail.push key, a.konamiPos)

def feedKonami (keypad : Keypad) (key : Int32) (a : App) : Option App := do
  let (window, pos) ← konamiWindow key a
  let a := { a with konami := window, konamiPos := pos }
  some (if pos = 10 ∧ window = konamiSeq keypad then
    { a with admin := !a.admin, konamiPos := 0 }.say
      (ascii (if a.admin then "ADMIN locked" else "ADMIN unlocked"))
  else a)

/-- A key on the screen that asks whether to retry. -/
def downKey (api : Api) (key : Int32) (a : App) : App :=
  if key = keyOf 'r' ∨ key = keyOf 'R' then appRefresh api a
  else if key = keyOf 'q' ∨ key = keyOf 'Q' then { a with running := false }
  else a

def isEnter (keypad : Keypad) (key : Int32) : Bool := key = 10 ∨ key = 13 ∨ key = keypad.enter

def isBackspace (keypad : Keypad) (key : Int32) : Bool :=
  key = keypad.backspace ∨ key = 127 ∨ key = 8

def isAmountKey (key : Int32) : Bool := (keyOf '0' ≤ key ∧ key ≤ keyOf '9') ∨ key = keyOf '.'

/-- A key in an open prompt. -/
def promptKey (keypad : Keypad) (api : Api) (key : Int32) (a : App) : Option App :=
  if key = 27 then (closePrompt a).map (·.say (ascii "Cancelled"))
  else if isEnter keypad key then confirmPrompt api a
  else if isBackspace keypad key then do
    let l := (← cstr a.promptBuf).length
    if 0 < l then (store a.promptBuf (l - 1) 0).map fun buf => { a with promptBuf := buf }
    else some a
  else if isAmountKey key then do
    let l := (← cstr a.promptBuf).length
    if l < promptBufLen - 1 then do
      let buf ← store a.promptBuf l key.toInt8.toUInt8
      (store buf (l + 1) 0).map fun buf => { a with promptBuf := buf }
    else some a
  else some a

/-- The cases of `switch (key)` in `app_handle_key`. -/
inductive KeyCase where
  | left
  | right
  | up
  | down
  | buy
  | deposit
  | cashout
  | refresh
  | quit
  | restock
  | price
  | escape
  | other
  deriving DecidableEq

def keyCase (keypad : Keypad) (key : Int32) : KeyCase :=
  if key = keypad.left then .left
  else if key = keypad.right then .right
  else if key = keypad.up then .up
  else if key = keypad.down then .down
  else if isEnter keypad key ∨ key = keyOf ' ' then .buy
  else if key = keyOf 'd' then .deposit
  else if key = keyOf 'c' then .cashout
  else if key = keyOf 'r' then .refresh
  else if key = keyOf 'q' then .quit
  else if key = keyOf 's' then .restock
  else if key = keyOf 'p' then .price
  else if key = 27 then .escape
  else .other

/-- A key while the products are shown. -/
def browseKey (keypad : Keypad) (api : Api) (key : Int32) (a : App) : Option App :=
  match keyCase keypad key with
  | .left => some (moveHorizontal (-1) a)
  | .right => some (moveHorizontal 1 a)
  | .up => moveVertical (-1) a
  | .down => moveVertical 1 a
  | .buy => doBuy api a
  | .deposit => openPrompt .deposit "Deposit amount (zl):" a
  | .cashout => some (doCashout api a)
  | .refresh => some ((appRefresh api a).say (ascii "Refreshed"))
  | .quit => some { a with running := false }
  | .restock => if a.admin then openPrompt .restock "Restock qty:" a else some a
  | .price => if a.admin then openPrompt .price "New price (zl):" a else some a
  | .escape => some (if a.admin then { a with admin := false }.say (ascii "ADMIN locked") else a)
  | .other => some a

def appHandleKey (keypad : Keypad) (api : Api) (key : Int32) (a : App) : Option App := do
  let a ← feedKonami keypad key a
  if a.serverDown then some (downKey api key a)
  else if a.mode = .prompt then promptKey keypad api key a
  else browseKey keypad api key a

/-- The loop of `main`: each key comes with the answers of the server while it is handled. -/
def feedKeys (keypad : Keypad) (keys : List (Int32 × Api)) (a : App) : Option App :=
  keys.foldlM (fun a k => appHandleKey keypad k.2 k.1 a) a

end Sshnack.Tui
