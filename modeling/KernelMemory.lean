import KernelMemory.Heap.Block
import KernelMemory.Manager
import KernelMemory.Paging.Ram
import KernelMemory.Proofs.Heap.Searching
import KernelMemory.Proofs.Heap.Tagging
import KernelMemory.Proofs.Heap.Cutting
import KernelMemory.Proofs.Heap.Allocation
import KernelMemory.Proofs.Heap.Alignment
import KernelMemory.Proofs.Heap.Release
import KernelMemory.Proofs.Heap.Walking
import KernelMemory.Proofs.Heap.Session
import KernelMemory.Proofs.Heap.Checking
import KernelMemory.Proofs.Heap.Ownership
import KernelMemory.Proofs.Heap.PlainLists
import KernelMemory.Proofs.Heap.WellFormed
import KernelMemory.Proofs.Heap.Turning
import KernelMemory.Proofs.Heap.Coalescing
import KernelMemory.Proofs.Heap.Canonical
import KernelMemory.Proofs.Heap.Determinacy
import KernelMemory.Proofs.Heap.Noninterference
import KernelMemory.Proofs.Heap.Safety
import KernelMemory.Proofs.Heap.Exhaustion
import KernelMemory.Proofs.Heap.SizeClasses
import KernelMemory.Proofs.Heap.Placement
import KernelMemory.Proofs.Heap.FreedAgain
import KernelMemory.Proofs.Heap.Foreign
import KernelMemory.Proofs.Buddy.Rings
import KernelMemory.Proofs.Buddy.PlainLists
import KernelMemory.Proofs.Buddy.Numbering
import KernelMemory.Proofs.Buddy.Marked
import KernelMemory.Proofs.Buddy.Splitting
import KernelMemory.Proofs.Buddy.Merging
import KernelMemory.Proofs.Buddy.Recovering
import KernelMemory.Proofs.Buddy.Session
import KernelMemory.Proofs.Buddy.Conservation
import KernelMemory.Proofs.Buddy.Tree
import KernelMemory.Proofs.Buddy.Determined
import KernelMemory.Proofs.Buddy.Judging
import KernelMemory.Proofs.Buddy.Passing
import KernelMemory.Proofs.Buddy.Completeness
import KernelMemory.Proofs.Buddy.Numbered
import KernelMemory.Proofs.FramePool.Stacking
import KernelMemory.Proofs.FramePool.Region
import KernelMemory.Proofs.FramePool.Accounting
import KernelMemory.Proofs.Heap.Blocks
import KernelMemory.Proofs.Heap.Relocation
import KernelMemory.Proofs.Heap.Answering
import KernelMemory.Proofs.Heap.Sizing
import KernelMemory.Proofs.Heap.HandedBack
import KernelMemory.Proofs.Refusals
import KernelMemory.Proofs.Lock.Guards
import KernelMemory.Proofs.Lock.Modes
import KernelMemory.Proofs.BitField
import KernelMemory.Proofs.Paging.Entries
import KernelMemory.Proofs.Paging.View
import KernelMemory.Proofs.Paging.Walking
import KernelMemory.Proofs.Paging.Writing
import KernelMemory.Proofs.Paging.Steps
import KernelMemory.Proofs.Paging.Painting
import KernelMemory.Proofs.Paging.Descending
import KernelMemory.Proofs.Paging.Mapping
import KernelMemory.Proofs.Paging.Ranges
import KernelMemory.Proofs.Paging.Stores
import KernelMemory.Proofs.Paging.Translation
import KernelMemory.Proofs.Paging.Faults
import KernelMemory.Proofs.Paging.Cuts
import KernelMemory.Proofs.Paging.Orderly
import KernelMemory.Proofs.Paging.Spaces
import KernelMemory.Proofs.Paging.Pagewise
import KernelMemory.Proofs.Paging.Recording
import KernelMemory.Proofs.Paging.Pieces
import KernelMemory.Proofs.Paging.Windows
import KernelMemory.Proofs.Paging.Aliasing
import KernelMemory.Proofs.Manager.Isolation
import KernelMemory.Proofs.Manager.Counting
import KernelMemory.Proofs.Manager.Building
import KernelMemory.Proofs.Manager.Unmapped
