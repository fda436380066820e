import BrokerBridge.Admin.Tables
import BrokerBridge.Conc.Paging

/-!
# Listings, page by page

The list methods order by `created_at` alone and cut a page out of the database's answer;
the response has the offset of the next page. A client that follows these offsets makes
one request after the other, and each answer may have the rows of one instant in another
order.

With rows of one instant on two pages, the answers can be such that a row is on both and
another on neither. Without them the pages fit together, whatever the answers are.
-/

namespace BrokerBridge

open Conc

/-- `next_offset`, which does not look at the limit. -/
def nextOffset (offset itemCount total : Nat) : Option Nat :=
  let nxt := offset + itemCount
  if total ≤ nxt ∨ itemCount = 0 then none else some nxt

structure PaginatedList (α : Type) where
  items : List α
  total : Nat
  limit : Nat
  offset : Nat
  nextOffset : Option Nat

/-- `PaginatedList.build` -/
def PaginatedList.build {α : Type} (items : List α) (total limit offset : Nat) :
    PaginatedList α where
  items := items
  total := total
  limit := limit
  offset := offset
  nextOffset := BrokerBridge.nextOffset offset items.length total

/-- A row with its `created_at`, which only listings read. -/
structure Stamped (α : Type) where
  row : α
  createdAt : Instant
  deriving DecidableEq

/-- What a list method selects, and what it orders by. -/
structure Listing (α : Type) where
  matching : α → Bool
  createdAt : α → Instant

namespace Listing

variable {α : Type} (list : Listing α) (table : List α)

def rows : List α := table.filter list.matching

/-- A list method: the rows of the page and the total. `answer` is what the database makes
of the `ORDER BY`. -/
def select (answer : List α) (limit offset : Nat) : List α × Nat :=
  ((answer.drop (max offset 0)).take (min (max limit 1) 100), (list.rows table).length)

/-- The route: the page that the client gets. -/
def page (answer : List α) (limit offset : Nat) : PaginatedList α :=
  let (items, total) := list.select table answer limit offset
  PaginatedList.build items total limit offset

/-- The database may answer the query so. -/
def Answers (answer : List α) : Prop := Lists list.createdAt (list.rows table) answer

end Listing

/-- `if client_id`, `if status`, `if symbol`, `if region`: a filter that is given and not
empty. -/
def given (filter : Option String) (value : String) : Bool :=
  filter.all fun x => x = "" || value = x

/-- `OrderService.list_orders` -/
def listOrders (clientId : Option ClientId) (status symbol : Option String) :
    Listing (Stamped Order) where
  matching o :=
    clientId.all (o.row.clientId = ·) && given status o.row.status.toString &&
      given symbol o.row.symbol
  createdAt := Stamped.createdAt

/-- `IpManagerService.list_ips` -/
def listIps (region : Option Region) : Listing (Stamped StaticIp) where
  matching ip := given region ip.row.region
  createdAt := Stamped.createdAt

def OutboxStatus.toString : OutboxStatus → String
  | .pending => "pending"
  | .sent => "sent"
  | .error => "error"

/-- `list_outbox` -/
def listOutbox (status : Option String) : Listing Admin.OutboxRow where
  matching r := given status r.status.toString
  createdAt := Admin.OutboxRow.createdAt

/-! ## Following the offsets -/

/-- A client that asks for the page at an offset, and goes on as the response says; `none`
when it has not come to an end after so many requests. `n` counts the requests. -/
def followPages {α : Type} (ask : Nat → Nat → PaginatedList α) :
    Nat → Nat → Nat → Option (List (List α))
  | 0, _, _ => none
  | fuel + 1, n, offset =>
      let page := ask n offset
      match page.nextOffset with
      | none => some [page.items]
      | some next => (followPages ask fuel (n + 1) next).map (page.items :: ·)

variable {α : Type} (list : Listing α) (table : List α) (limit : Nat)

/-- Whatever the database answers, following the offsets comes to an end, and the pages
have every matching row once. -/
def VisitsOnce : Prop :=
  ∀ answers : Nat → List α, (∀ n, list.Answers table (answers n)) →
    ∃ fuel pages, followPages (fun n offset => list.page table (answers n) limit offset) fuel 0 0
        = some pages ∧ pages.flatten.Perm (list.rows table)

/-- No two matching rows of one instant are on different pages. -/
def TiesOnOnePage : Prop :=
  ∀ k t, ¬ Straddles list.createdAt (list.rows table) (k * limit) t

section Pages

variable {list table limit} {answers : Nat → List α} {fuel n : Nat} {pages : List (List α)}

/-- One request: the last page, or a full one and the next request. -/
theorem followPages_succ (h1 : 1 ≤ limit) (h2 : limit ≤ 100)
    (hlength : (answers n).length = (list.rows table).length) :
    followPages (fun n offset => list.page table (answers n) limit offset) (fuel + 1) n
      (n * limit) =
      if (n + 1) * limit < (list.rows table).length then
        (followPages (fun n offset => list.page table (answers n) limit offset) fuel (n + 1)
          ((n + 1) * limit)).map (((answers n).drop (n * limit)).take limit :: ·)
      else some [(answers n).drop (n * limit)] := by
  have hlimit : min (max limit 1) 100 = limit := by omega
  have hmul : (n + 1) * limit = n * limit + limit := Nat.succ_mul n limit
  have hitems : (((answers n).drop (n * limit)).take limit).length =
      min limit ((list.rows table).length - n * limit) := by
    rw [List.length_take, List.length_drop, hlength]
  simp only [followPages, Listing.page, Listing.select, PaginatedList.build, nextOffset, hlimit,
    Nat.max_zero, hitems]
  split
  · next hnone =>
      split at hnone
      · next hlast =>
          have hle : ¬ (n + 1) * limit < (list.rows table).length := by omega
          rw [if_neg hle, List.take_of_length_le]
          rw [List.length_drop, hlength]
          omega
      · cases hnone
  · next next hsome =>
      split at hsome
      · cases hsome
      · next hmore =>
          have hlt : (n + 1) * limit < (list.rows table).length := by omega
          have hnext : next = (n + 1) * limit := by
            rw [← Option.some.inj hsome]
            omega
          rw [if_pos hlt, hnext]

/-- With no ties across pages, the pages from an offset on have the rows that any answer
has from there on. -/
theorem exists_followPages (h1 : 1 ≤ limit) (h2 : limit ≤ 100)
    (hanswers : ∀ n, list.Answers table (answers n)) (hties : TiesOnOnePage list table limit)
    (left n : Nat) (hleft : (list.rows table).length ≤ n * limit + left) :
    ∃ fuel pages, followPages (fun n offset => list.page table (answers n) limit offset) fuel n
        (n * limit) = some pages ∧
      ∀ l, list.Answers table l → pages.flatten.Perm (l.drop (n * limit)) := by
  have hlast : ∀ n, ¬ (n + 1) * limit < (list.rows table).length →
      ∃ fuel pages, followPages (fun n offset => list.page table (answers n) limit offset) fuel n
          (n * limit) = some pages ∧
        ∀ l, list.Answers table l → pages.flatten.Perm (l.drop (n * limit)) := by
    intro n hend
    refine ⟨1, [(answers n).drop (n * limit)], ?_, fun l hl => ?_⟩
    · rw [followPages_succ h1 h2 (hanswers n).length_eq, if_neg hend]
    · rw [List.flatten_singleton]
      exact (hanswers n).drop_perm hl (hties n)
  induction left generalizing n with
  | zero =>
      refine hlast n fun hlt => ?_
      have hmul : (n + 1) * limit = n * limit + limit := Nat.succ_mul n limit
      omega
  | succ left ih =>
      by_cases hmore : (n + 1) * limit < (list.rows table).length
      · have hmul : (n + 1) * limit = n * limit + limit := Nat.succ_mul n limit
        obtain ⟨fuel, pages, hfollow, hperm⟩ := ih (n + 1) (by omega)
        refine ⟨fuel + 1, ((answers n).drop (n * limit)).take limit :: pages, ?_, fun l hl => ?_⟩
        · rw [followPages_succ h1 h2 (hanswers n).length_eq, if_pos hmore, hfollow]
          rfl
        · have hrest := hperm (answers n) (hanswers n)
          rw [hmul, ← List.drop_drop] at hrest
          have hpage := hrest.append_left (((answers n).drop (n * limit)).take limit)
          rw [List.take_append_drop] at hpage
          rw [List.flatten_cons]
          exact hpage.trans ((hanswers n).drop_perm hl (hties n))
      · exact hlast n hmore

/-- The pages are the windows of one list, if each answer has its window of it. -/
theorem flatten_of_windows {mixed : List α} (h1 : 1 ≤ limit) (h2 : limit ≤ 100)
    (hanswers : ∀ n, list.Answers table (answers n))
    (hlength : mixed.length = (list.rows table).length)
    (hwindow : ∀ n, ((answers n).drop (n * limit)).take limit = (mixed.drop (n * limit)).take limit)
    (hfollow : followPages (fun n offset => list.page table (answers n) limit offset) fuel n
      (n * limit) = some pages) : pages.flatten = mixed.drop (n * limit) := by
  induction fuel generalizing n pages with
  | zero => cases hfollow
  | succ fuel ih =>
      have hmul : (n + 1) * limit = n * limit + limit := Nat.succ_mul n limit
      rw [followPages_succ h1 h2 (hanswers n).length_eq] at hfollow
      split at hfollow
      · obtain ⟨rest, hrest, rfl⟩ := Option.map_eq_some_iff.mp hfollow
        rw [List.flatten_cons, ih hrest, hwindow, hmul, ← List.drop_drop, List.take_append_drop]
      · next hend =>
          have hlen := (hanswers n).length_eq
          have hall := hwindow n
          rw [List.take_of_length_le (by rw [List.length_drop]; omega),
            List.take_of_length_le (by rw [List.length_drop]; omega)] at hall
          rw [← Option.some.inj hfollow, List.flatten_singleton, hall]

/-- The answers before request `k` and those from it on, cut there and put together. -/
theorem windows_of_switch {l l' : List α} {k : Nat} (hk : k * limit < l.length) (n : Nat) :
    (((if n < k then l else l').drop (n * limit)).take limit) =
      ((l.take (k * limit) ++ l'.drop (k * limit)).drop (n * limit)).take limit := by
  have hfront : (l.take (k * limit)).length = k * limit := by
    rw [List.length_take]
    omega
  split
  · next hlt =>
      have hmul : (n + 1) * limit ≤ k * limit := Nat.mul_le_mul_right limit hlt
      have hsucc : (n + 1) * limit = n * limit + limit := Nat.succ_mul n limit
      rw [List.drop_append_of_le_length (by omega), List.take_append_of_le_length
        (by rw [List.length_drop]; omega), List.drop_take, List.take_take, min_eq_left (by omega)]
  · next hge =>
      have hmul : k * limit ≤ n * limit := Nat.mul_le_mul_right limit (by omega)
      have hnil : (l.take (k * limit)).drop (n * limit) = [] :=
        List.drop_eq_nil_of_le (by omega)
      rw [List.drop_append, hfront, hnil, List.nil_append, List.drop_drop,
        Nat.add_sub_cancel' hmul]

/-- Two answers that do not fit, one before the offset and the other from there on. -/
theorem not_visitsOnce_of_straddles (h1 : 1 ≤ limit) (h2 : limit ≤ 100) (hnodup : table.Nodup)
    {k : Nat} {t : Instant} (h : Straddles list.createdAt (list.rows table) (k * limit) t) :
    ¬ VisitsOnce list table limit := by
  intro hvisits
  obtain ⟨l, l', hl, hl', front, x, y, back, hfront, rfl, rfl⟩ := exists_swapped h
  have hanswers : ∀ n, list.Answers table
      (if n < k then front ++ x :: y :: back else front ++ y :: x :: back) := by
    intro n
    split
    · exact hl
    · exact hl'
  obtain ⟨fuel, pages, hfollow, hperm⟩ := hvisits _ hanswers
  have hlong : k * limit < (front ++ x :: y :: back).length := by
    simp only [List.length_append, List.length_cons]
    omega
  have hmixed : (front ++ x :: y :: back).take (k * limit) ++
      (front ++ y :: x :: back).drop (k * limit) = front ++ x :: x :: back := by
    rw [← hfront, List.take_length_add_append, List.drop_length_add_append, List.append_assoc]
    rfl
  have hlength : (front ++ x :: x :: back).length = (list.rows table).length := by
    rw [← hl.length_eq]
    simp only [List.length_append, List.length_cons]
  have hflat := flatten_of_windows h1 h2 hanswers hlength (fun n => by
    rw [← hmixed]
    exact windows_of_switch hlong n) (by rw [Nat.zero_mul]; exact hfollow)
  rw [Nat.zero_mul, List.drop_zero] at hflat
  rw [hflat] at hperm
  have htwice : (front ++ x :: x :: back).Nodup := hperm.nodup_iff.mpr (hnodup.filter _)
  have hx := (List.nodup_append.mp htwice).2.1
  exact (List.nodup_cons.mp hx).1 List.mem_cons_self

theorem visitsOnce_iff (h1 : 1 ≤ limit) (h2 : limit ≤ 100) (hnodup : table.Nodup) :
    VisitsOnce list table limit ↔ TiesOnOnePage list table limit := by
  constructor
  · exact fun hvisits k t h => not_visitsOnce_of_straddles h1 h2 hnodup h hvisits
  · intro hties answers hanswers
    obtain ⟨fuel, pages, hfollow, hperm⟩ :=
      exists_followPages h1 h2 hanswers hties (list.rows table).length 0 (by omega)
    rw [Nat.zero_mul] at hfollow hperm
    have hall := hperm (answers 0) (hanswers 0)
    rw [List.drop_zero] at hall
    exact ⟨fuel, pages, hfollow, hall.trans (hanswers 0).perm⟩

end Pages

/-- Of the orders, IPs and events, whatever the filters, every page sequence visits each
row once exactly when no two matching rows of one instant are on different pages. -/
theorem listings_visitOnce_iff (limit : Nat) (h1 : 1 ≤ limit) (h2 : limit ≤ 100) :
    (∀ clientId status symbol (orders : List (Stamped Order)), orders.Nodup →
      (VisitsOnce (listOrders clientId status symbol) orders limit ↔
        TiesOnOnePage (listOrders clientId status symbol) orders limit)) ∧
    (∀ region (ips : List (Stamped StaticIp)), ips.Nodup →
      (VisitsOnce (listIps region) ips limit ↔ TiesOnOnePage (listIps region) ips limit)) ∧
    ∀ status (events : List Admin.OutboxRow), events.Nodup →
      (VisitsOnce (listOutbox status) events limit ↔
        TiesOnOnePage (listOutbox status) events limit) :=
  ⟨fun _ _ _ _ hnodup => visitsOnce_iff h1 h2 hnodup,
    fun _ _ hnodup => visitsOnce_iff h1 h2 hnodup,
    fun _ _ hnodup => visitsOnce_iff h1 h2 hnodup⟩

/-! ## Two IPs -/

def ipAt (id : IpId) (createdAt : Instant) : Stamped StaticIp where
  row := { id := id, externalId := id, ipAddress := "", region := "ewr" }
  createdAt := createdAt

theorem listings_visitOnce_twoIps :
    VisitsOnce (listIps none) [ipAt 1 7, ipAt 2 8] 1 ↔
      TiesOnOnePage (listIps none) [ipAt 1 7, ipAt 2 8] 1 :=
  (listings_visitOnce_iff 1 (by decide) (by decide)).2.1 none [ipAt 1 7, ipAt 2 8] (by decide)

/-- Two IPs of one instant, one a page. -/
theorem not_visitsOnce_tied : ¬ VisitsOnce (listIps none) [ipAt 1 7, ipAt 2 7] 1 :=
  not_visitsOnce_of_straddles (k := 1) (t := 7) (by decide) (by decide) (by decide)
    (by constructor <;> decide)

end BrokerBridge
