import Edfomai.Data
import Edfomai.Lib.CString
import Mathlib.Data.List.Nodup

/-!
# Edfomai.Message

The messages of `edfomai-data.h` and the resolution of the name a message carries:
`_get_handle` of `edfomai-drv.c`, over the registry of Xenomai's nucleus.

The registry binds names to objects of any kind. `_get_handle` does not ask which
kind it has found: it applies `T_DESC` to the object's address.
-/

namespace Edfomai

/-! ### `EDFMessage` -/

/-- `EDFMessage`. The compiler pads the array `task` up to the alignment of
`deadline`. -/
structure EdfMessage where
  command : UInt32
  task : List UInt8
  taskSize : task.length = tnameLen + 1
  padding : List UInt8
  paddingSize : padding.length = 3
  deadline : UInt64
  deriving DecidableEq

/-- The bytes of a 64-bit number as they lie in memory. -/
def littleEndian (n : UInt64) : List UInt8 :=
  (List.range 8).map fun i => (n >>> (8 * i.toUInt64)).toUInt8

/-- The bytes from `task` on: what a string function sees that is given
`message->task`. `beyond` lies after the message. -/
def EdfMessage.taskMemory (m : EdfMessage) (beyond : List UInt8) : List UInt8 :=
  m.task ++ m.padding ++ littleEndian m.deadline ++ beyond

/-! ### The registry -/

/-- The kinds of native objects with a name. -/
inductive NativeKind
  | task
  | queue
  | semaphore
  | mutex
  | alarm
  | other
  deriving DecidableEq, Repr

/-- An object in the registry: its name, its kind, and what `T_DESC` makes of its
address. -/
structure NativeObject where
  key : TaskName
  kind : NativeKind
  desc : RtTask
  deriving DecidableEq

/-- The registered objects. -/
abbrev Registry := List NativeObject

/-- `xnregistry_bind` with `XN_NONBLOCK`: the object under a name. -/
def xnregistryBind (registry : Registry) (key : List UInt8) : Option NativeObject :=
  registry.find? fun o => o.key.chars = key

/-- `xnregistry_fetch`, which finds every object that was just bound. -/
def xnregistryFetch (registry : Registry) (handle : NativeObject) : Option NativeObject :=
  if handle ∈ registry then some handle else none

/-- `_get_handle`. -/
def getHandle (registry : Registry) (rname : List UInt8) : Option RtTask :=
  match xnregistryBind registry (cString rname) with
  | none => none
  | some handle => (xnregistryFetch registry handle).map NativeObject.desc

/-- The task is registered under the name. -/
def Registry.HasTask (registry : Registry) (name : TaskName) (task : RtTask) : Prop :=
  (⟨name, .task, task⟩ : NativeObject) ∈ registry

/-- No two objects have one name. -/
def Registry.Distinct (registry : Registry) : Prop :=
  (registry.map NativeObject.key).Nodup

instance (registry : Registry) : Decidable registry.Distinct := by
  unfold Registry.Distinct; infer_instance

theorem Registry.Distinct.eq_of_key {registry : Registry} (h : registry.Distinct)
    {o o' : NativeObject} (ho : o ∈ registry) (ho' : o' ∈ registry) (hk : o.key = o'.key) :
    o = o' := List.inj_on_of_nodup_map h ho ho' hk

/-- A registry of tasks: distinct names, each the one its task reports. -/
structure Registry.OfTasks (registry : Registry) (name : RtTask → TaskName) : Prop where
  distinct : registry.Distinct
  tasks : ∀ o ∈ registry, o.kind = .task
  named : ∀ o ∈ registry, o.key = name o.desc

/-- What `_get_handle` returns is the object with the name that was read. -/
theorem getHandle_eq_some {registry : Registry} {rname : List UInt8} {task : RtTask}
    (h : getHandle registry rname = some task) :
    ∃ o ∈ registry, o.key.chars = cString rname ∧ o.desc = task := by
  unfold getHandle xnregistryBind xnregistryFetch at h
  split at h
  · exact absurd h (by simp)
  · next o hfind =>
    have hmem := List.mem_of_find?_eq_some hfind
    rw [if_pos hmem] at h
    exact ⟨o, hmem, by simpa using List.find?_some hfind, by simpa using h⟩

/-- A registered object is found under its name. -/
theorem getHandle_of_mem {registry : Registry} (hd : registry.Distinct) {o : NativeObject}
    (ho : o ∈ registry) {rname : List UInt8} (hname : cString rname = o.key.chars) :
    getHandle registry rname = some o.desc := by
  have hbind : xnregistryBind registry (cString rname) = some o := by
    cases hfind : xnregistryBind registry (cString rname) with
    | none =>
        have := List.find?_eq_none.mp hfind o ho
        simp [hname] at this
    | some o' =>
        have hkey : o'.key.chars = cString rname := by simpa using List.find?_some hfind
        rw [hd.eq_of_key (List.mem_of_find?_eq_some hfind) ho
          (TaskName.ext (hkey.trans hname))]
  simp [getHandle, hbind, xnregistryFetch, ho]

end Edfomai
