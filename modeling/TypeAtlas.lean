import TypeAtlas.Blob.Writer
import TypeAtlas.Main
import TypeAtlas.Proofs.Blob.Arithmetic
import TypeAtlas.Proofs.Blob.Embedding
import TypeAtlas.Proofs.Blob.Interning
import TypeAtlas.Proofs.Blob.Positions
import TypeAtlas.Proofs.Blob.Refusals
import TypeAtlas.Proofs.Command.Outputs
import TypeAtlas.Proofs.Dump.Joining
import TypeAtlas.Proofs.Dump.Listing
import TypeAtlas.Proofs.Files.Enumeration
import TypeAtlas.Proofs.Heap.Balance
import TypeAtlas.Proofs.NameIndex.Walks
import TypeAtlas.Proofs.Registry.Copying
import TypeAtlas.Proofs.Registry.Detection
import TypeAtlas.Proofs.Registry.Diagnosis
import TypeAtlas.Proofs.Registry.Installation
import TypeAtlas.Proofs.Registry.MemberLookup
import TypeAtlas.Proofs.Registry.Reordering
import TypeAtlas.Proofs.Registry.Trailing
import TypeAtlas.Proofs.Registry.Truncation
import TypeAtlas.Proofs.Schema.Staging
import TypeAtlas.Proofs.Value.Addresses
import TypeAtlas.Registry.Installed
