import Sshnack.CArrays
import Sshnack.Router
import Sshnack.Decimal
import Sshnack.Seed

/-!
# The two buffers of the stock response

`handle_get_stock` prints the list into a buffer of 128 bytes a product and 8 more, and `send_json`
copies that into a buffer of 8192 bytes and sends as many bytes as `snprintf` would have written. The
product list fits both if its names and numbers are short enough; `listingWidth` is the sum that
decides it. `handleClientIn` is the server with the first of the two buffers.
-/

namespace Sshnack

open Txn

/-- What `products_list` makes of a name: a C string in an array of `MAX_NAME_LEN` bytes. -/
structure Listed (p : Product) : Prop where
  noNul : 0 ∉ p.name
  fits : p.name.length < maxNameLen

/-- The text of the `i`-th round of the loop. -/
def entryText (i : ℕ) (p : Product) : CString := (if 0 < i then ascii "," else []) ++ productJson p

def printEntries {n : ℕ} : ℕ → List Product → Vector UInt8 n × ℕ → Option (Vector UInt8 n × ℕ)
  | _, [], s => some s
  | i, p :: products, s =>
      (sprintf s.1 s.2 (entryText i p)).bind (printEntries (i + 1) products)

/-- The body as `handle_get_stock` prints it into the allocated buffer. -/
def printStock {n : ℕ} (body : Vector UInt8 n) (products : List Product) :
    Option (Vector UInt8 n) := do
  let s ← sprintf body 0 (ascii "[")
  let s ← printEntries 0 products s
  let s ← sprintf s.1 s.2 (ascii "]")
  return s.1

/-- What `handle_get_stock` sends for what `products_list` returned: `malloc` may refuse the buffer, and
there is no result where its size leaves the range of `int` or the list is printed beyond it. -/
def sendStock (malloc : (n : ℕ) → Option (Vector UInt8 n)) (result : Except Int32 Answer) :
    Option Response :=
  if returned result ≠ 0 then some (Products.sendJson 500 (errorBody "internal error"))
  else if 2 ^ 31 ≤ (listed result).length * 128 + 8 then none
  else match malloc ((listed result).length * 128 + 8) with
    | none => some (Products.sendJson 500 (errorBody "internal error"))
    | some body => ((printStock body (listed result)).bind cstr).map (Products.sendJson 200)

/-- `handle_get_stock` with its buffer. -/
def handleGetStockIn (malloc : (n : ℕ) → Option (Vector UInt8 n)) (rows : ℕ) :
    Prog Stmt Row (Option Response) := do
  let result ← productsList rows
  return sendStock malloc result

/-- The call of a handler with the buffer of `handle_get_stock`. -/
def HandlerFn.callIn (malloc : (n : ℕ) → Option (Vector UInt8 n)) (rows : ℕ) (fn : HandlerFn)
    (req : Request) : Prog Stmt Row (Option Response) :=
  match fn with
  | .getStock => handleGetStockIn malloc rows
  | fn => do
      let response ← fn.call rows req
      return some response

def dispatchIn (malloc : (n : ℕ) → Option (Vector UInt8 n)) (rows : ℕ) (req : Request)
    (internal : Bool) : Prog Stmt Row (Option Response) :=
  match route req internal with
  | .error response => return some response
  | .ok fn => fn.callIn malloc rows req

/-- `handle_client` with the buffer of `handle_get_stock`: `none` where it writes beyond it, and
`some none` where there is nobody to answer. -/
def handleClientIn (malloc : (n : ℕ) → Option (Vector UInt8 n)) (rows : ℕ) (adminToken : CString)
    (internal : Bool) (chunks : List (List UInt8)) : Prog Stmt Row (Option (Option Response)) :=
  match received adminToken chunks with
  | none => return some none
  | some req =>
      if req.method = none then
        return some (some (literalResponse "HTTP/1.1 400 Bad Request\r\nContent-Length: 0\r\n\r\n"))
      else do
        let response ← dispatchIn malloc rows req internal
        return response.map some

/-- The bytes that `send` reads: the buffer holds what fits of the text, then a NUL. -/
def Response.sent (r : Response) : Option (List UInt8) :=
  if r.text.length ≤ r.size then some ((snprintf r.size r.text ++ [0]).take r.text.length) else none

/-- Whatever `malloc` returned, the list is printed within its buffer and sent as a whole. -/
def StockFits (products : List Product) : Prop :=
  ∀ body : Vector UInt8 (products.length * 128 + 8), ∃ buf text,
    printStock body products = some buf ∧ cstr buf = some text ∧
      (Products.sendJson 200 text).sent = some (Products.sendJson 200 text).text

/-- The characters that `%d` writes. -/
def intWidth (x : Int32) : ℕ := (if x.toInt < 0 then 1 else 0) + (Nat.log 10 x.toInt.natAbs + 1)

/-- The bytes that the name and the four numbers of a product take. -/
def productWidth (p : Product) : ℕ :=
  intWidth p.slotId + intWidth p.itemId + p.name.length + intWidth p.priceGr + intWidth p.stockQty

def listingWidth (products : List Product) : ℕ := (products.map productWidth).sum

/-! ### The product list -/

theorem listed_readProduct (r : Row) : Listed (readProduct r) where
  noNul := by
    intro hmem
    have hzero := List.all_eq_true.1 List.all_takeWhile 0 (List.mem_of_mem_take hmem)
    simp at hzero
  fits := by
    have hle := List.length_take_le (maxNameLen - 1) ((columnText r 2).takeWhile (· ≠ 0))
    exact Nat.lt_of_le_of_lt hle (by decide)

theorem listed_productsLoop (rows : ℕ) {last : Option Int} {ps : List Product}
    (h : ∀ p ∈ ps, Listed p) (flt : ℕ → Bool) (k : Conn Db) :
    ∀ p ∈ listed ((productsLoop rows last ps).run Stmt.perform flt k).1, Listed p := by
  induction rows generalizing last ps flt k with
  | zero => simp [productsLoop, listed]
  | succ rows ih =>
    rw [productsLoop, exec_bind, Prog.run_call]
    generalize k.answer Stmt.perform _ _ = answered
    obtain ⟨reply, k'⟩ := answered
    cases reply with
    | row r =>
      apply ih
      intro p hp
      rcases List.mem_append.1 hp with hold | hnew
      · exact h p hold
      · rw [List.mem_singleton.1 hnew]
        exact listed_readProduct r
    | done => exact h
    | ok => simp [listed]
    | error => simp [listed]

/-- In every run of `products_list`, whatever fails. -/
theorem listed_productsList (rows : ℕ) (flt : ℕ → Bool) (k : Conn Db) :
    ∀ p ∈ listed ((productsList rows).run Stmt.perform flt k).1, Listed p := by
  rw [productsList, exec_bind, Prog.run_call]
  generalize k.answer Stmt.perform _ _ = answered
  obtain ⟨reply, k'⟩ := answered
  by_cases hok : reply = .ok
  · rw [if_neg (not_not_intro hok)]
    exact listed_productsLoop rows (fun p hp => absurd hp List.not_mem_nil) _ k'
  · rw [if_pos hok]
    simp [listed]

/-! ### Printing -/

section Printing

variable {n i : ℕ} {ps : List Product} {s : CString} {buf : Vector UInt8 n}

/-- What the loop prints from its `i`-th round on. -/
def entriesText : ℕ → List Product → CString
  | _, [] => []
  | i, p :: products => entryText i p ++ entriesText (i + 1) products

theorem printEntries_some {rest : List UInt8} (h : buf.toList = s ++ rest)
    (hlen : s.length + (entriesText i ps).length < n) :
    ∃ buf' rest', printEntries i ps (buf, s.length) =
        some (buf', (s ++ entriesText i ps).length) ∧
      buf'.toList = s ++ entriesText i ps ++ rest' := by
  induction ps generalizing i s buf rest with
  | nil => exact ⟨buf, rest, by simp [printEntries, entriesText], by simpa [entriesText] using h⟩
  | cons p ps ih =>
    rw [entriesText, List.length_append] at hlen
    have hfit : s.length + (entryText i p).length < n := by omega
    obtain ⟨mid, rest', hprint, hmid⟩ := sprintf_some h hfit
    obtain ⟨buf', rest'', hloop, hbuf'⟩ := ih (i := i + 1) hmid (by rw [List.length_append]; omega)
    refine ⟨buf', rest'', ?_, ?_⟩
    · rw [printEntries, hprint, Option.bind_some, hloop, entriesText, List.append_assoc]
    · rw [hbuf', entriesText, ← List.append_assoc s]

theorem printEntries_none {rest : List UInt8} (h : buf.toList = s ++ rest) (hs : s.length < n)
    (hlen : n ≤ s.length + (entriesText i ps).length) : printEntries i ps (buf, s.length) = none := by
  induction ps generalizing i s buf rest with
  | nil =>
    rw [entriesText, List.length_nil] at hlen
    omega
  | cons p ps ih =>
    rw [entriesText, List.length_append] at hlen
    by_cases hfit : s.length + (entryText i p).length < n
    · obtain ⟨mid, rest', hprint, hmid⟩ := sprintf_some h hfit
      rw [printEntries, hprint, Option.bind_some]
      exact ih hmid (by rw [List.length_append]; omega) (by rw [List.length_append]; omega)
    · rw [printEntries, sprintf_none h (by omega), Option.bind_none]

theorem entriesText_succ (i : ℕ) (ps : List Product) :
    entriesText (i + 1) ps = ps.flatMap fun p => ascii "," ++ productJson p := by
  induction ps generalizing i with
  | nil => rfl
  | cons p ps ih =>
    rw [entriesText, ih, entryText, if_pos (Nat.succ_pos i), List.flatMap_cons]

theorem stockBody_eq (ps : List Product) :
    stockBody ps = ascii "[" ++ entriesText 0 ps ++ ascii "]" := by
  cases ps with
  | nil => rfl
  | cons p ps =>
    have hjoin : List.intercalate (ascii ",") ((p :: ps).map productJson) =
        productJson p ++ ps.flatMap fun p => ascii "," ++ productJson p := by
      induction ps generalizing p with
      | nil => simp [List.intercalate]
      | cons q ps ih =>
        rw [List.map_cons, List.map_cons, List.intercalate_cons_cons, ← List.map_cons, ih,
          List.flatMap_cons, List.append_assoc, List.append_assoc (ascii ",")]
    rw [stockBody, hjoin, entriesText, entriesText_succ, entryText]
    rfl

theorem printOpen (body : Vector UInt8 n) (hn : 1 < n) :
    ∃ buf rest, sprintf body 0 (ascii "[") = some (buf, (ascii "[").length) ∧
      buf.toList = ascii "[" ++ rest := by
  obtain ⟨buf, rest, hopen, hbuf⟩ := sprintf_some (List.nil_append body.toList).symm
    (by rw [List.length_nil, zero_add]; exact hn : ([] : CString).length + (ascii "[").length < n)
  exact ⟨buf, 0 :: rest, hopen, hbuf⟩

/-- The list is printed if the text and its NUL fit the buffer. -/
theorem printStock_some (body : Vector UInt8 n) (hlen : (stockBody ps).length < n) :
    ∃ buf rest, printStock body ps = some buf ∧ buf.toList = stockBody ps ++ 0 :: rest := by
  rw [stockBody_eq] at hlen ⊢
  rw [List.length_append, List.length_append] at hlen
  have hone : (ascii "[").length = 1 := rfl
  obtain ⟨b₁, r₁, hopen, hb₁⟩ := printOpen body (by omega)
  have hfit : (ascii "[").length + (entriesText 0 ps).length < n := by omega
  obtain ⟨b₂, r₂, hloop, hb₂⟩ := printEntries_some hb₁ hfit
  obtain ⟨b₃, r₃, hclose, hb₃⟩ := sprintf_some hb₂
    (by rw [List.length_append]; omega : _ + (ascii "]").length < n)
  refine ⟨b₃, r₃, ?_, hb₃⟩
  simp only [printStock, hopen, Option.bind_eq_bind, Option.bind_some, hloop, hclose]
  rfl

theorem printStock_none (body : Vector UInt8 n) (hlen : n ≤ (stockBody ps).length) :
    printStock body ps = none := by
  rw [stockBody_eq, List.length_append, List.length_append] at hlen
  have hone : (ascii "[").length = 1 := rfl
  have hlast : (ascii "]").length = 1 := rfl
  by_cases hn : 1 < n
  · obtain ⟨b₁, r₁, hopen, hb₁⟩ := printOpen body hn
    by_cases hfit : (ascii "[").length + (entriesText 0 ps).length < n
    · obtain ⟨b₂, r₂, hprint, hb₂⟩ := printEntries_some hb₁ hfit
      have hclose : sprintf b₂ (ascii "[" ++ entriesText 0 ps).length (ascii "]") = none :=
        sprintf_none hb₂ (by rw [List.length_append]; omega)
      simp only [printStock, hopen, Option.bind_eq_bind, Option.bind_some, hprint, hclose,
        Option.bind_none]
    · have hnone : printEntries 0 ps (b₁, (ascii "[").length) = none :=
        printEntries_none hb₁ hn (by omega)
      simp only [printStock, hopen, Option.bind_eq_bind, Option.bind_some, hnone, Option.bind_none]
  · have hopen : sprintf body 0 (ascii "[") = none :=
      sprintf_none (List.nil_append body.toList).symm (by rw [List.length_nil]; omega)
    simp only [printStock, hopen, Option.bind_eq_bind, Option.bind_none]

end Printing

/-! ### Lengths -/

section Lengths

variable {ps : List Product}

theorem productJson_length (p : Product) : (productJson p).length = 58 + productWidth p := by
  have hslot : (ascii "\x7b\"slot_id\":").length = 11 := rfl
  have hitem : (ascii ",\"item_id\":").length = 11 := rfl
  have hname : (ascii ",\"name\":\"").length = 9 := rfl
  have hprice : (ascii "\",\"price_gr\":").length = 13 := rfl
  have hstock : (ascii ",\"stock_qty\":").length = 13 := rfl
  have hclose : (ascii "\x7d").length = 1 := rfl
  simp only [productJson, productWidth, intWidth, List.length_append, formatInt_length_eq]
  omega

/-- Every product but the first has a comma. -/
theorem stockBody_length (ps : List Product) :
    (stockBody ps).length + min 1 ps.length = 2 + 59 * ps.length + listingWidth ps := by
  have hone : (ascii "[").length = 1 := rfl
  have hlast : (ascii "]").length = 1 := rfl
  have hcomma : (ascii ",").length = 1 := rfl
  have htail (i : ℕ) (qs : List Product) : (entriesText (i + 1) qs).length =
      59 * qs.length + listingWidth qs := by
    rw [entriesText_succ]
    induction qs with
    | nil => rfl
    | cons q qs ih =>
      rw [List.flatMap_cons, List.length_append, ih, List.length_append, productJson_length]
      simp only [listingWidth, List.map_cons, List.sum_cons, List.length_cons]
      omega
  rw [stockBody_eq, List.length_append, List.length_append]
  cases ps with
  | nil => rfl
  | cons p ps =>
    rw [entriesText, List.length_append, htail, entryText, if_neg (lt_irrefl 0), List.nil_append,
      productJson_length]
    simp only [listingWidth, List.map_cons, List.sum_cons, List.length_cons]
    omega

theorem productJson_noNul {p : Product} (h : Listed p) : 0 ∉ productJson p := by
  have hint (x : Int32) : 0 ∉ formatInt x := fun hmem => (formatInt_plain x 0 hmem).2.1 rfl
  simp only [productJson, List.mem_append, not_or, hint, h.noNul, not_false_eq_true, and_true]
  decide

theorem stockBody_noNul (h : ∀ p ∈ ps, Listed p) : 0 ∉ stockBody ps := by
  have hentries (i : ℕ) : 0 ∉ entriesText i ps := by
    induction ps generalizing i with
    | nil => exact List.not_mem_nil
    | cons p ps ih =>
      have hcomma : 0 ∉ if 0 < i then ascii "," else [] := by split <;> decide
      rw [entriesText, entryText, List.mem_append, List.mem_append, not_or, not_or]
      exact ⟨⟨hcomma, productJson_noNul (h p List.mem_cons_self)⟩,
        ih (fun q hq => h q (List.mem_cons_of_mem p hq)) (i + 1)⟩
  rw [stockBody_eq, List.mem_append, List.mem_append, not_or, not_or]
  exact ⟨⟨by decide, hentries 0⟩, by decide⟩

/-- The text is sent as a whole if it leaves room for its NUL. -/
theorem sent_eq_text_iff {r : Response} (hnul : 0 ∉ r.text) (hsize : 0 < r.size) :
    r.sent = some r.text ↔ r.text.length < r.size := by
  rw [Response.sent, snprintf]
  constructor
  · intro h
    split_ifs at h with hle
    by_contra hfull
    have hlen : r.text.length = (r.text.take (r.size - 1) ++ [0]).length := by
      rw [List.length_append, List.length_take, List.length_singleton]
      omega
    have hmem : (0 : UInt8) ∈ r.text.take (r.size - 1) ++ [0] := by simp
    rw [Option.some.injEq, hlen, List.take_length] at h
    exact hnul (h ▸ hmem)
  · intro hlt
    have hfit : r.text.take (r.size - 1) = r.text := List.take_of_length_le (by omega)
    rw [if_pos hlt.le, hfit, List.take_left]

theorem sendJson_length (body : CString) : (Products.sendJson 200 body).text.length =
    69 + (Nat.log 10 body.length + 1) + body.length := by
  have hline : (ascii "HTTP/1.1 ").length = 9 := by decide
  have hstatus : (ascii "200 OK").length = 6 := by decide
  have hheads : (ascii "\r\nContent-Type: application/json\r\nContent-Length: ").length = 50 := by
    decide
  have hblank : (ascii "\r\n\r\n").length = 4 := by decide
  have hlookup : (([(200, "200 OK"), (404, "404 Not Found")] : List (ℕ × String)).lookup
      200).getD "500 Internal Server Error" = "200 OK" := rfl
  simp only [Products.sendJson, sendJson, hlookup, List.length_append, ascii_toString,
    decimal_length_eq]
  omega

theorem sendJson_noNul {body : CString} (h : 0 ∉ body) :
    0 ∉ (Products.sendJson 200 body).text := by
  have hdigits : 0 ∉ decimal body.length := fun hmem =>
    absurd (decimal_digits body.length 0 hmem) (by decide)
  simp only [Products.sendJson, sendJson, ascii_toString, List.mem_append, not_or, hdigits, h,
    not_false_eq_true, and_true]
  decide

theorem sendJson_fits (body : CString) :
    (Products.sendJson 200 body).text.length < 8192 ↔ body.length ≤ 8118 := by
  rw [sendJson_length]
  constructor
  · intro h
    by_contra hlong
    have hlog : 3 ≤ Nat.log 10 body.length := Nat.le_log_of_pow_le (by decide) (by omega)
    omega
  · intro h
    have hlog : Nat.log 10 body.length < 4 := Nat.log_lt_of_lt_pow' (by decide) (by omega)
    omega

theorem sent_stockBody_iff (h : ∀ p ∈ ps, Listed p) :
    (Products.sendJson 200 (stockBody ps)).sent =
      some (Products.sendJson 200 (stockBody ps)).text ↔ (stockBody ps).length ≤ 8118 :=
  (sent_eq_text_iff (sendJson_noNul (stockBody_noNul h)) (Nat.succ_pos 8191)).trans
    (sendJson_fits _)

theorem listingWidth_of_empty (h : ps.length = 0) : listingWidth ps = 0 := by
  rw [List.length_eq_zero_iff.1 h]
  rfl

theorem printStock_cstr (h : ∀ p ∈ ps, Listed p) (hwidth : listingWidth ps ≤ 69 * ps.length + 6)
    (body : Vector UInt8 (ps.length * 128 + 8)) :
    ∃ buf, printStock body ps = some buf ∧ cstr buf = some (stockBody ps) := by
  have hlen := stockBody_length ps
  have hempty : ps.length = 0 → listingWidth ps = 0 := listingWidth_of_empty
  have hroom : (stockBody ps).length < ps.length * 128 + 8 := by omega
  obtain ⟨buf, rest, hprint, hbuf⟩ := printStock_some body hroom
  exact ⟨buf, hprint, cstr_iff.2 ⟨stockBody_noNul h, rest, hbuf⟩⟩

theorem StockFits.narrow (h : ∀ p ∈ ps, Listed p) (hfits : StockFits ps) :
    listingWidth ps ≤ 69 * ps.length + 6 ∧ listingWidth ps + 59 * ps.length ≤ 8117 := by
  have hlen := stockBody_length ps
  have hempty : ps.length = 0 → listingWidth ps = 0 := listingWidth_of_empty
  obtain ⟨buf, text, hprint, htext, hwhole⟩ := hfits (Vector.replicate _ 0)
  by_cases hroom : (stockBody ps).length < ps.length * 128 + 8
  · obtain ⟨buf', rest, hprint', hbuf'⟩ := printStock_some (Vector.replicate _ 0) hroom
    cases hprint.symm.trans hprint'
    cases htext.symm.trans (cstr_iff.2 ⟨stockBody_noNul h, rest, hbuf'⟩)
    have hshort := (sent_stockBody_iff h).1 hwhole
    omega
  · rw [printStock_none _ (by omega)] at hprint
    cases hprint

theorem stockFits_of_narrow (h : ∀ p ∈ ps, Listed p)
    (hnarrow : listingWidth ps ≤ 69 * ps.length + 6)
    (hshort : listingWidth ps + 59 * ps.length ≤ 8117) : StockFits ps := by
  have hlen := stockBody_length ps
  have hempty : ps.length = 0 → listingWidth ps = 0 := listingWidth_of_empty
  intro body
  obtain ⟨buf, hprint, hcstr⟩ := printStock_cstr h hnarrow body
  exact ⟨buf, stockBody ps, hprint, hcstr, (sent_stockBody_iff h).2 (by omega)⟩

/-- The stock response fits its buffers if and only if its names and numbers are short enough for
both. -/
theorem stockFits_iff (h : ∀ p ∈ ps, Listed p) : StockFits ps ↔
    listingWidth ps ≤ 69 * ps.length + 6 ∧ listingWidth ps + 59 * ps.length ≤ 8117 :=
  ⟨fun hfits => hfits.narrow h, fun hwidth => stockFits_of_narrow h hwidth.1 hwidth.2⟩

def seedListing : List Product :=
  listed ((productsList 31).run Stmt.perform (fun _ => false) ⟨seed, none⟩).1

theorem stockFits_seed : seedListing.length = 30 ∧ StockFits seedListing :=
  ⟨by decide +kernel, (stockFits_iff (listed_productsList 31 (fun _ => false) ⟨seed, none⟩)).2
    (by decide +kernel)⟩

/-- One slot whose name and numbers are as long as the columns of `product_t` allow. -/
def wideTables : Tables where
  users := []
  items := [⟨2147483647, List.replicate 49 97, 2147483647⟩]
  stock := [⟨2147483647, 2147483647, 2147483647⟩]
  transactions := []
  stockLogs := []
  usersSeq := 0

theorem wideTables_valid : wideTables.Valid := by decide

/-- The list of a stock of one slot is printed beyond its buffer. -/
theorem stockFits_wide : ¬ StockFits (listed ((productsList 2).run Stmt.perform (fun _ => false)
    ⟨⟨wideTables, wideTables_valid⟩, none⟩).1) := by
  have hlist : listed ((productsList 2).run Stmt.perform (fun _ => false)
      ⟨⟨wideTables, wideTables_valid⟩, none⟩).1 =
        [⟨2147483647, 2147483647, List.replicate 49 97, 2147483647, 2147483647⟩] := by
    decide
  rw [hlist]
  intro hfits
  obtain ⟨buf, text, hprint, -⟩ := hfits (Vector.replicate _ 0)
  rw [printStock_none _ (by decide +kernel)] at hprint
  cases hprint

end Lengths

end Sshnack
