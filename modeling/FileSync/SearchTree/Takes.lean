import FileSync.SearchTree.Runs

/-!
# Taking by key

`jfs_bst_takes` looks for its key in the cache first, and then with `bst_find`.
If it finds the key in the cache it copies the value and returns: the value stays
in the tree. So it does what it should exactly if no cached node has the key.
-/

namespace FileSync.SearchTree

open FileSync.Lib FileSync.FreeList FileSync.MemoryLayout ColorTree

variable {K V : Type} [LinearOrder K] {cmp : K → V → Int} {keyOf : V → K} {t : Bst V} {T : ColorTree Addr}
  {slots free : List Addr} {chain : Addr → List Addr}

end FileSync.SearchTree
