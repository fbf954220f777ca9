import MbararaAuction.Model.Exports
import MbararaAuction.Proofs.DecimalTexts
import MbararaAuction.Proofs.Summaries

namespace MbararaAuction
open Formats Queries

section Rows
variable {rows : List (List String)} {value : Option String}

/-- What a spreadsheet program reads in a file. -/
def readRows (text : String) : List (List String) :=
  (excel.read text.toList).map fun record => record.map String.ofList

theorem readRows_writeRows : readRows (writeRows rows) = rows := by
  unfold readRows writeRows
  rw [String.toList_ofList, Dialect.read_write, List.map_map]
  conv_rhs => rw [← List.map_id rows]
  refine List.map_congr_left fun row _ => ?_
  rw [Function.comp_apply, List.map_map, id_eq]
  conv_rhs => rw [← List.map_id row]
  exact List.map_congr_left fun text _ => String.ofList_toList

/-- A cell that no spreadsheet program takes for a formula. -/
def Harmless (cell : String) : Prop := ∀ c, cell.toList.head? = some c → c ∉ formulaStarts

theorem harmless_csvSafe : Harmless (csvSafe value) := by
  intro c hc
  unfold csvSafe at hc
  dsimp only at hc
  split at hc
  · rw [String.toList_append] at hc
    cases hc
    decide
  · next hsafe =>
    rw [hc] at hsafe
    simpa using hsafe

end Rows

section Files
variable {server : ReportServer} {tables : ReportTables} {session : Option UserId}
  {rawFrom rawTo text : String}

theorem staffPage_some {α : Type} {get : Except ReportError α} {x : α}
    (h : staffPage tables session get = .ok (some x)) : get = .ok x := by
  unfold staffPage at h
  split at h
  · split at h
    · cases get with
      | error e => cases h
      | ok y =>
        cases h
        rfl
    · cases h
  · cases h

/-- A file of the rows of a table, in the order of their keys, and nothing that a
spreadsheet program would run. -/
structure FileOf {α : Type} (text : String) (header : List String) (key : α → Nat)
    (values : α → List (Option String)) (rows : List α) : Prop where
  reads : ∃ sorted : List α, sorted.Perm rows ∧ sorted.Pairwise (fun x y => key x ≤ key y) ∧
    readRows text = header :: sorted.map fun x => (values x).map csvSafe
  harmless : ∀ row ∈ readRows text, ∀ cell ∈ row, Harmless cell

theorem fileOf_written {α : Type} {header : List String} {key : α → Nat}
    {values : α → List (Option String)} {rows : List α} (hheader : ∀ cell ∈ header, Harmless cell) :
    FileOf (writeRows (header :: (rows.mergeSort fun x y => key x ≤ key y).map fun x =>
      (values x).map csvSafe)) header key values rows := by
  constructor
  · have hsorted : (rows.mergeSort fun x y => decide (key x ≤ key y)).Pairwise _ :=
      List.pairwise_mergeSort (fun a b c => by simpa using Nat.le_trans)
        (fun a b => by simpa using Nat.le_total ..) rows
    refine ⟨_, List.mergeSort_perm .., ?_, readRows_writeRows⟩
    exact hsorted.imp fun h => of_decide_eq_true h
  · rw [readRows_writeRows]
    intro row hrow cell hcell
    rcases List.mem_cons.mp hrow with rfl | hrow
    · exact hheader cell hcell
    · obtain ⟨x, _, rfl⟩ := List.mem_map.mp hrow
      obtain ⟨value, _, rfl⟩ := List.mem_map.mp hcell
      exact harmless_csvSafe

theorem harmless_header {header : List String}
    (h : ∀ cell ∈ header, (cell.toList.head?.any formulaStarts.contains) = false) :
    ∀ cell ∈ header, Harmless cell := by
  intro cell hcell c hc
  have hsafe := h cell hcell
  rw [hc] at hsafe
  simpa using hsafe

/-- The rows of the file of auctions are those of its range. -/
theorem auctionsCsv_file (h : auctionsCsvView server tables session rawFrom rawTo = .ok (some text)) :
    ∃ auctions, auctionsInRange server tables (getRange rawFrom rawTo).1
        (getRange rawFrom rawTo).2.1 = .ok auctions ∧
      FileOf text auctionHeader id (auctionValues tables) auctions := by
  have hget := staffPage_some h
  obtain ⟨auctions, hauctions, hwritten⟩ := report_bind_eq_ok hget
  cases hwritten
  exact ⟨auctions, hauctions, fileOf_written (harmless_header (by decide))⟩

theorem paymentsCsv_file (h : paymentsCsvView server tables session rawFrom rawTo = .ok (some text)) :
    ∃ payments, paymentsInRange server tables (getRange rawFrom rawTo).1
        (getRange rawFrom rawTo).2.1 = .ok payments ∧
      FileOf text paymentHeader (fun x => x.2.pk) (paymentValues tables) payments := by
  have hget := staffPage_some h
  obtain ⟨payments, hpayments, hwritten⟩ := report_bind_eq_ok hget
  cases hwritten
  exact ⟨payments, hpayments, fileOf_written (harmless_header (by decide))⟩

end Files

section Spreadsheet

/-- What a row has in the column with a title. -/
def cellOf (file : List (List String)) (title : String) (row : List String) : String :=
  row.getD ((file.headD []).idxOf title) ""

/-- The rows below the titles that have a text in a column. -/
def rowsWith (file : List (List String)) (title : String) (text : String) : List (List String) :=
  file.tail.filter fun row => cellOf file title row = text

/-- The number that a cell shows, in hundredths; blanks count for nothing. -/
def amountOf (cell : String) : Money :=
  match Decimal.ofText cell with
  | some (.finite negative coefficient exponent) => cents negative coefficient exponent
  | _ => 0

/-- The sum of a column over some rows. -/
def totalOf (file : List (List String)) (title : String) (rows : List (List String)) : Money :=
  (rows.map fun row => amountOf (cellOf file title row)).sum

/-- The figures of a dashboard are those that a spreadsheet program works out from the
two files. -/
structure WorkedOut (s : Summary) (auctions payments : List (List String)) : Prop where
  total : s.totalAuctions = auctions.tail.length
  statuses : s.statusRows = Status.choices.filterMap fun status =>
    if (rowsWith auctions "status" status.value).length = 0 then none
    else some (status.display, (rowsWith auctions "status" status.value).length)
  finished : s.finishedCount =
    (auctions.tail.filter fun row =>
      cellOf auctions "status" row ∈ finishedStatuses.map Status.value).length
  sold : s.soldCount =
    (auctions.tail.filter fun row => cellOf auctions "final_price" row ≠ "").length
  sales : s.salesValue = totalOf auctions "final_price" auctions.tail
  bills : s.paymentRows = PaymentStatus.choices.map fun status =>
    { label := status.display
      count := (rowsWith payments "status" status.value).length
      amount := totalOf payments "amount" (rowsWith payments "status" status.value) }
  collected : s.collected = totalOf payments "amount" (rowsWith payments "status" "PAID")
  outstanding : s.outstanding = totalOf payments "amount" (rowsWith payments "status" "PENDING")

end Spreadsheet

section Cells
variable {m : Money} {row : Auction}

theorem amountOf_moneyStr (hm : m.natAbs < 10 ^ 14) : amountOf (moneyStr m) = m := by
  unfold amountOf
  rw [ofText_moneyStr hm]
  exact cents_money m

theorem csvSafe_moneyStr (hlow : 0 ≤ m) : csvSafe (some (moneyStr m)) = moneyStr m := by
  have hsign : signText (m < 0) = [] := by
    unfold signText
    rw [if_neg]
    simpa using hlow
  unfold csvSafe
  dsimp only [Option.getD_some]
  rw [if_neg]
  rw [moneyStr_toList, hsign, List.nil_append]
  cases hdigits : Nat.toDigits 10 (m.natAbs / 100) with
  | nil => exact absurd hdigits Nat.toDigits_ne_nil
  | cons c rest =>
    have hc : c.isDigit = true := allDigits_toDigits c (by rw [hdigits]; exact List.mem_cons_self)
    intro hstart
    simp [formulaStarts] at hstart
    rcases hstart with rfl | rfl | rfl | rfl | rfl | rfl <;> cases hc

theorem csvSafe_status (status : Status) : csvSafe (some status.value) = status.value := by
  cases status <;> decide

theorem csvSafe_paymentStatus (status : PaymentStatus) :
    csvSafe (some status.value) = status.value := by
  cases status <;> decide

theorem moneyStr_ne : moneyStr m ≠ "" := by
  intro h
  have hchars := congrArg String.toList h
  rw [moneyStr_toList] at hchars
  simp at hchars

end Cells

section Columns
variable {α : Type} {header : List String} {title text : String} {cells : α → List String}
  {rows : List α}

/-- A filter on a column selects the rows of the table. -/
theorem filter_file {key : α → String} (p : String → Prop) [DecidablePred p]
    (h : ∀ x, (cells x).getD (header.idxOf title) "" = key x) :
    ((header :: rows.map cells).tail.filter fun row =>
        p (cellOf (header :: rows.map cells) title row)) =
      (rows.filter fun x => p (key x)).map cells := by
  rw [List.tail_cons, List.filter_map]
  congr 1
  apply List.filter_congr
  intro x _
  have hcell : cellOf (header :: rows.map cells) title (cells x) = key x := h x
  rw [Function.comp_apply, hcell]

theorem rowsWith_file {key : α → String}
    (h : ∀ x, (cells x).getD (header.idxOf title) "" = key x) :
    rowsWith (header :: rows.map cells) title text =
      (rows.filter fun x => key x = text).map cells := filter_file (· = text) h

theorem totalOf_file (header : List String) (title : String) {file : List (List String)}
    {amount : α → Money} (hfile : file.headD [] = header)
    (h : ∀ x ∈ rows, amountOf ((cells x).getD (header.idxOf title) "") = amount x) :
    totalOf file title (rows.map cells) = (rows.map amount).sum := by
  unfold totalOf
  rw [List.map_map]
  refine congrArg List.sum (List.map_congr_left fun x hx => ?_)
  rw [Function.comp_apply, cellOf, hfile]
  exact h x hx

end Columns

section Tables
variable {tables : ReportTables} {auctions sorted : List AuctionId} {a : AuctionId}
  {payments bills : List (AuctionId × Payment)} {s : Summary}

def auctionFile (tables : ReportTables) (auctions : List AuctionId) : List (List String) :=
  auctionHeader :: auctions.map fun a => (auctionValues tables a).map csvSafe

def paymentFile (tables : ReportTables) (payments : List (AuctionId × Payment)) : List (List String) :=
  paymentHeader :: payments.map fun x => (paymentValues tables x).map csvSafe

theorem status_cell : ((auctionValues tables a).map csvSafe).getD (auctionHeader.idxOf "status") "" =
    (tables.row a).status.value := csvSafe_status _

theorem price_cell :
    ((auctionValues tables a).map csvSafe).getD (auctionHeader.idxOf "final_price") "" =
      csvSafe ((tables.row a).finalPrice.map moneyStr) := rfl

theorem amount_cell {x : AuctionId × Payment} :
    ((paymentValues tables x).map csvSafe).getD (paymentHeader.idxOf "amount") "" =
      csvSafe (some (moneyStr x.2.amount)) := rfl

theorem paid_cell {x : AuctionId × Payment} :
    ((paymentValues tables x).map csvSafe).getD (paymentHeader.idxOf "status") "" =
      x.2.status.value := csvSafe_paymentStatus _

/-- A final price is that of a sale. -/
theorem price_sold (h : SaleBook (tables.dossier a)) :
    (tables.row a).sold = (tables.row a).finalPrice.isSome ∧
      ∀ m ∈ (tables.row a).finalPrice, 0 < m := by
  cases hphase : (tables.row a).status.beforeClose with
  | true =>
    obtain ⟨hsale, -⟩ := h.early hphase
    have hprice : (tables.row a).finalPrice = none := congrArg Sale.finalPrice hsale
    have hopen : (tables.row a).sold = false := by
      simp [Auction.sold, ← Bool.not_eq_true, finished_iff, hphase]
    simp [hopen, hprice]
  | false =>
    have hfinished : (tables.row a).finished = true := finished_iff.mpr hphase
    have hbilled := h.late hphase
    unfold Billed at hbilled
    split at hbilled
    · next u price hwinner hprice =>
      change (tables.row a).winner = some u at hwinner
      change (tables.row a).finalPrice = some price at hprice
      obtain ⟨hpositive, -⟩ := hbilled
      simp [Auction.sold, hfinished, hwinner, hprice, hpositive]
    · next hwinner hprice =>
      change (tables.row a).winner = none at hwinner
      change (tables.row a).finalPrice = none at hprice
      simp [Auction.sold, hwinner, hprice]
    · cases hbilled

/-- What the cell of a final price shows. -/
theorem price_shown (h : SaleBook (tables.dossier a)) :
    csvSafe ((tables.row a).finalPrice.map moneyStr) ≠ "" ↔ (tables.row a).sold = true := by
  obtain ⟨hsold, hpositive⟩ := price_sold h
  rw [hsold]
  cases hprice : (tables.row a).finalPrice with
  | none => simp [csvSafe]
  | some m =>
    have hm := hpositive m hprice
    rw [Option.map_some, csvSafe_moneyStr (le_of_lt hm)]
    simp [moneyStr_ne]

theorem price_amount (h : SaleBook (tables.dossier a)) (ha : a ∈ tables.auctionPks) :
    amountOf (csvSafe ((tables.row a).finalPrice.map moneyStr)) =
      (tables.row a).finalPrice.getD 0 := by
  obtain ⟨-, hpositive⟩ := price_sold h
  cases hprice : (tables.row a).finalPrice with
  | none => decide +kernel
  | some m =>
    have hm := hpositive m hprice
    rw [Option.map_some, csvSafe_moneyStr (le_of_lt hm), amountOf_moneyStr (tables.pricesFit a ha m hprice)]
    rfl

theorem payment_amount {x : AuctionId × Payment} (h : SaleBook (tables.dossier x.1))
    (hx : x ∈ tables.rows Dossier.payments) :
    amountOf (csvSafe (some (moneyStr x.2.amount))) = x.2.amount := by
  obtain ⟨a, ha, hmem⟩ := List.mem_flatMap.mp hx
  obtain ⟨p, hp, rfl⟩ := List.mem_map.mp hmem
  obtain ⟨-, hprice, hpositive⟩ := h.single hp
  rw [csvSafe_moneyStr (le_of_lt hpositive), amountOf_moneyStr (tables.pricesFit a ha _ hprice)]

theorem value_injective : Function.Injective Status.value := by
  intro s t h
  cases s <;> cases t <;> first | rfl | (revert h; decide)

theorem paymentValue_injective : Function.Injective PaymentStatus.value := by
  intro s t h
  cases s <;> cases t <;> first | rfl | (revert h; decide)

/-- The rows of the file that have a status. -/
theorem status_count (hperm : sorted.Perm auctions) (status : Status) :
    (rowsWith (auctionFile tables sorted) "status" status.value).length =
      (auctions.filter fun a => (tables.row a).status = status).length := by
  rw [auctionFile, rowsWith_file fun _ => status_cell, List.length_map]
  simp only [value_injective.eq_iff]
  exact (hperm.filter _).length_eq

theorem bills_with (status : PaymentStatus) :
    rowsWith (paymentFile tables bills) "status" status.value =
      (bills.filter fun x => x.2.status = status).map
        fun x => (paymentValues tables x).map csvSafe := by
  rw [paymentFile, rowsWith_file fun _ => paid_cell]
  simp only [paymentValue_injective.eq_iff]

/-- The bills of a status, and what they come to. -/
theorem bill_total (hperm : bills.Perm payments)
    (hbooks : ∀ a ∈ tables.auctionPks, SaleBook (tables.dossier a))
    (hrows : ∀ x ∈ payments, x ∈ tables.rows Dossier.payments) (status : PaymentStatus) :
    (rowsWith (paymentFile tables bills) "status" status.value).length =
        (payments.filter fun x => x.2.status = status).length ∧
      totalOf (paymentFile tables bills) "amount"
          (rowsWith (paymentFile tables bills) "status" status.value) =
        amountSum (payments.filter fun x => x.2.status = status) := by
  have hfilter := hperm.filter fun x => x.2.status = status
  rw [bills_with]
  constructor
  · rw [List.length_map]
    exact hfilter.length_eq
  · have hamounts : ∀ x ∈ bills.filter fun x => x.2.status = status,
        amountOf (((paymentValues tables x).map csvSafe).getD (paymentHeader.idxOf "amount") "") =
          x.2.amount := by
      intro x hx
      have hrow := hrows x (hperm.subset (List.mem_filter.mp hx).1)
      obtain ⟨a, ha, hmem⟩ := List.mem_flatMap.mp hrow
      obtain ⟨p, _, rfl⟩ := List.mem_map.mp hmem
      rw [amount_cell]
      exact payment_amount (hbooks a ha) hrow
    rw [totalOf_file paymentHeader "amount" rfl hamounts, amountSum_eq]
    exact (hfilter.map _).sum_eq

/-- Only sold auctions add to the prices. -/
theorem price_total (hbooks : ∀ a ∈ auctions, SaleBook (tables.dossier a)) :
    (auctions.map fun a => (tables.row a).finalPrice.getD 0).sum =
      priceSum tables (auctions.filter fun a => (tables.row a).sold) := by
  rw [priceSum_eq]
  induction auctions with
  | nil => rfl
  | cons a rest ih =>
    obtain ⟨ha, hrest⟩ := List.forall_mem_cons.mp hbooks
    obtain ⟨hsold, -⟩ := price_sold ha
    rw [List.map_cons, List.sum_cons, ih hrest, List.filter_cons, hsold]
    cases hprice : (tables.row a).finalPrice with
    | none => simp
    | some m => simp [hprice]

/-- The figures of some rows are worked out from the files of these rows. -/
theorem figures_workedOut {server : ReportServer} {x : Selection}
    (hfigures : figures server tables x = .ok s)
    (hbooks : ∀ a ∈ tables.auctionPks, SaleBook (tables.dossier a))
    (hauctions : ∀ a ∈ x.auctions, a ∈ tables.auctionPks)
    (hpayments : ∀ y ∈ x.payments, y ∈ tables.rows Dossier.payments)
    (hsorted : sorted.Perm x.auctions) (hbills : bills.Perm x.payments) :
    WorkedOut s (auctionFile tables sorted) (paymentFile tables bills) := by
  have hbills := bill_total hbills hbooks hpayments
  have hprices : ∀ a ∈ sorted, SaleBook (tables.dossier a) := fun a ha =>
    hbooks a (hauctions a (hsorted.subset ha))
  simp only [figures, finished_sold] at hfigures
  obtain ⟨v, -, h⟩ := report_bind_eq_ok hfigures
  cases h
  constructor
  case total => simp [auctionFile, hsorted.length_eq]
  case statuses =>
    simp only [statusRows, lookup_groups_length, status_count hsorted]
  case finished =>
    rw [auctionFile, filter_file (· ∈ finishedStatuses.map Status.value) fun _ => status_cell,
      List.length_map]
    simp only [List.mem_map_of_injective value_injective]
    refine (hsorted.symm.filter _).length_eq.trans (congrArg List.length ?_)
    apply List.filter_congr
    intro a _
    simp [Auction.finished]
  case sold =>
    rw [auctionFile, filter_file (· ≠ "") fun _ => price_cell, List.length_map]
    refine (hsorted.symm.filter _).length_eq.trans (congrArg List.length ?_)
    apply List.filter_congr
    intro a ha
    rw [Bool.eq_iff_iff, decide_eq_true_iff]
    exact (price_shown (hprices a ha)).symm
  case sales =>
    have hamounts : ∀ a ∈ sorted,
        amountOf (((auctionValues tables a).map csvSafe).getD (auctionHeader.idxOf "final_price") "") =
          (tables.row a).finalPrice.getD 0 := by
      intro a ha
      rw [price_cell]
      exact price_amount (hprices a ha) (hauctions a (hsorted.subset ha))
    rw [auctionFile, List.tail_cons, totalOf_file auctionHeader "final_price" rfl hamounts,
      (hsorted.map _).sum_eq]
    exact (price_total fun a ha => hbooks a (hauctions a ha)).symm
  case bills =>
    simp only [paymentRows]
    refine List.map_congr_left fun status _ => ?_
    obtain ⟨hcount, hamount⟩ := hbills status
    rw [hcount, hamount]
  case collected => exact (hbills .paid).2.symm
  case outstanding => exact (hbills .pending).2.symm

end Tables

section Runs
variable {db : Database} {before : List (Site × SiteEvent)} {c : Site} {server : ReportServer}
  {tables : ReportTables} {session : Option UserId} {rawFrom rawTo : String}
  {page : Dashboard} {auctionsText paymentsText : String}

theorem inRange_subset {α : Type} {createdAt : α → Time} {rows selected : List α}
    {range : Option Time × Option Time} (h : inRange server createdAt rows range = .ok selected) :
    ∀ x ∈ selected, x ∈ rows := by
  have hfilter : ∀ {p : Time → α → Bool} {t : Option Time} {l m : List α},
      filterAt server p t l = .ok m → ∀ x ∈ m, x ∈ l := by
    intro p t l m hm x hx
    unfold filterAt at hm
    split at hm
    · cases hm
      exact hx
    · split at hm
      · cases hm
        exact (List.mem_filter.mp hx).1
      · cases hm
  obtain ⟨kept, hkept, hselected⟩ := report_bind_eq_ok h
  exact fun x hx => hfilter hkept x (hfilter hselected x hx)

/-- A summary is of the rows of its range. -/
theorem buildSummary_rows {dateFrom dateTo : Option Date} {s : Summary}
    (h : buildSummary server tables dateFrom dateTo = .ok s) :
    ∃ x, auctionsInRange server tables dateFrom dateTo = .ok x.auctions ∧
      paymentsInRange server tables dateFrom dateTo = .ok x.payments ∧
      figures server tables x = .ok s := by
  obtain ⟨range, -, h⟩ := report_bind_eq_ok h
  obtain ⟨auctions, hauctions, h⟩ := report_bind_eq_ok h
  obtain ⟨bids, -, h⟩ := report_bind_eq_ok h
  obtain ⟨payments, hpayments, h⟩ := report_bind_eq_ok h
  obtain ⟨disputes, -, h⟩ := report_bind_eq_ok h
  exact ⟨⟨auctions, bids, payments, disputes⟩, hauctions, hpayments, h⟩

/-- Whatever the titles, names and references hold, the two files are read back as written:
the titles, and then one row for each auction or payment of the range, in the order of the
keys, with no cell that a spreadsheet program takes for a formula. -/
theorem exports_read_back
    (hauctions : auctionsCsvView server tables session rawFrom rawTo = .ok (some auctionsText))
    (hpayments : paymentsCsvView server tables session rawFrom rawTo = .ok (some paymentsText)) :
    (∃ auctions, auctionsInRange server tables (getRange rawFrom rawTo).1
        (getRange rawFrom rawTo).2.1 = .ok auctions ∧
      FileOf auctionsText auctionHeader id (auctionValues tables) auctions) ∧
    ∃ payments, paymentsInRange server tables (getRange rawFrom rawTo).1
        (getRange rawFrom rawTo).2.1 = .ok payments ∧
      FileOf paymentsText paymentHeader (fun x => x.2.pk) (paymentValues tables) payments :=
  ⟨auctionsCsv_file hauctions, paymentsCsv_file hpayments⟩

/-- In every state of every run of the services, the dashboard shows the figures that a
spreadsheet program works out from the two files of the same dates. -/
theorem exports_reconcile (hrun : SiteRun db before c) (hrows : tables.toDatabase = c.world.db)
    (hfresh : ∀ a ∈ tables.auctionPks, Fresh (db.dossier a))
    (hpage : reportsDashboardView server tables session rawFrom rawTo = .ok (some page))
    (hauctions : auctionsCsvView server tables session rawFrom rawTo = .ok (some auctionsText))
    (hpayments : paymentsCsvView server tables session rawFrom rawTo = .ok (some paymentsText)) :
    WorkedOut page.summary (readRows auctionsText) (readRows paymentsText) := by
  have hbooks : ∀ a ∈ tables.auctionPks, SaleBook (tables.dossier a) := by
    intro a ha
    rw [hrows]
    exact (run_sound hrun (hfresh a ha)).sale
  obtain ⟨auctions, hselected, hfile⟩ := auctionsCsv_file hauctions
  obtain ⟨payments, hbilled, hbills⟩ := paymentsCsv_file hpayments
  obtain ⟨s, hsummary, hshown⟩ := report_bind_eq_ok (staffPage_some hpage)
  cases hshown
  obtain ⟨x, hxa, hxp, hfigures⟩ := buildSummary_rows hsummary
  cases hselected.symm.trans hxa
  cases hbilled.symm.trans hxp
  obtain ⟨sorted, hsorted, -, hread⟩ := hfile.reads
  obtain ⟨bills, hperm, -, hreadBills⟩ := hbills.reads
  rw [hread, hreadBills]
  obtain ⟨range, -, hinAuctions⟩ := report_bind_eq_ok hxa
  obtain ⟨range', -, hinPayments⟩ := report_bind_eq_ok hxp
  exact figures_workedOut hfigures hbooks (inRange_subset hinAuctions) (inRange_subset hinPayments)
    hsorted hperm

end Runs

section Sample

theorem getRange_blank : getRange "" "" = (none, none, true) := by decide +kernel

theorem staffPage_officer {α : Type} {tables : ReportTables} {session : Option UserId}
    {get : Except ReportError α} {x : α}
    (h : ((requestUser tables.toDatabase session).any fun v => v.2.isOfficerOrAdmin) = true)
    (hget : get = .ok x) : staffPage tables session get = .ok (some x) := by
  unfold staffPage
  cases huser : requestUser tables.toDatabase session with
  | none =>
    rw [huser] at h
    cases h
  | some v =>
    have hofficer : v.2.isOfficerOrAdmin = true := by simpa [huser] using h
    dsimp only
    rw [if_pos hofficer, hget]
    rfl

/-- An officer opens the dashboard and both files after a sale that the sweep has closed. -/
theorem sample_exports : ∃ (m : engine.Moment sampleDatabase) (tables : ReportTables) (page : Dashboard)
    (auctionsText paymentsText : String), tables.toDatabase = m.now.world.db ∧
    reportsDashboardView sampleServer tables (some 0) "" "" = .ok (some page) ∧
    auctionsCsvView sampleServer tables (some 0) "" "" = .ok (some auctionsText) ∧
    paymentsCsvView sampleServer tables (some 0) "" "" = .ok (some paymentsText) := by
  obtain ⟨m, hm⟩ := served_moment sampleDatabase
    (opening ++ [.call (.placeBid 0 2 (.int 700000)), .outside (.tick 9000000000),
      .call .closeEndedAuctions])
    (fun w => w.db.auctionPks == [0] && ((w.db.dossier 0).row.finalPrice == some 70000000 &&
      (requestUser w.db (some 0)).any fun v => v.2.isOfficerOrAdmin))
    (by decide +kernel)
  simp only [Bool.and_eq_true, beq_iff_eq] at hm
  obtain ⟨hpks, hprice, huser⟩ := hm
  let tables : ReportTables :=
    { m.now.world.db with
      categoryName := sampleTables.categoryName
      auctionCreatedAt := sampleTables.auctionCreatedAt
      paymentCreatedAt := sampleTables.paymentCreatedAt
      disputeCreatedAt := sampleTables.disputeCreatedAt
      pricesFit := by
        intro a ha p hp
        rw [hpks, List.mem_singleton] at ha
        rw [ha, hprice, Option.some.injEq] at hp
        rw [← hp]
        decide }
  obtain ⟨s, hs⟩ := figures_ok (x := ⟨tables.auctionPks, tables.acceptedBids,
    tables.rows Dossier.payments, tables.rows Dossier.disputes⟩) sampleServer
    (fun _ ha => ha : ∀ a ∈ tables.auctionPks, a ∈ tables.auctionPks)
  refine ⟨m, tables, ⟨s, [], "", ""⟩, writeAuctionsCsv tables tables.auctionPks,
    writePaymentsCsv tables (tables.rows Dossier.payments), rfl, ?_, ?_, ?_⟩
  · refine staffPage_officer huser ?_
    rw [getRange_blank]
    dsimp only
    rw [buildSummary_all, hs]
    rfl
  · refine staffPage_officer huser ?_
    rw [getRange_blank]
    rfl
  · refine staffPage_officer huser ?_
    rw [getRange_blank]
    rfl

theorem exports_read_back_sample : ∃ (tables : ReportTables) (auctionsText paymentsText : String)
    (auctions : List AuctionId) (payments : List (AuctionId × Payment)),
    auctionsCsvView sampleServer tables (some 0) "" "" = .ok (some auctionsText) ∧
    paymentsCsvView sampleServer tables (some 0) "" "" = .ok (some paymentsText) ∧
    FileOf auctionsText auctionHeader id (auctionValues tables) auctions ∧
    FileOf paymentsText paymentHeader (fun x => x.2.pk) (paymentValues tables) payments := by
  obtain ⟨m, tables, page, auctionsText, paymentsText, -, -, hauctions, hpayments⟩ := sample_exports
  obtain ⟨⟨auctions, -, hfile⟩, payments, -, hbills⟩ := exports_read_back hauctions hpayments
  exact ⟨tables, auctionsText, paymentsText, auctions, payments, hauctions, hpayments, hfile, hbills⟩

theorem exports_reconcile_sample : ∃ (tables : ReportTables) (page : Dashboard)
    (auctionsText paymentsText : String),
    reportsDashboardView sampleServer tables (some 0) "" "" = .ok (some page) ∧
    auctionsCsvView sampleServer tables (some 0) "" "" = .ok (some auctionsText) ∧
    paymentsCsvView sampleServer tables (some 0) "" "" = .ok (some paymentsText) ∧
    WorkedOut page.summary (readRows auctionsText) (readRows paymentsText) := by
  obtain ⟨m, tables, page, auctionsText, paymentsText, hrows, hpage, hauctions, hpayments⟩ :=
    sample_exports
  exact ⟨tables, page, auctionsText, paymentsText, hpage, hauctions, hpayments,
    exports_reconcile m.run hrows (fun _ _ => sample_fresh) hpage hauctions hpayments⟩

end Sample

end MbararaAuction
