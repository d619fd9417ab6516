import TableVault.Main
import TableVault.Proofs.Inspect.Descent
import TableVault.Proofs.Inspect.Frame
import TableVault.Proofs.Padlock.Entries
import TableVault.Proofs.Record.Truncation
import TableVault.Proofs.Storage.Removals
import TableVault.Proofs.Store.Closing
import TableVault.Proofs.Store.Isolation
import TableVault.Proofs.Tree.Division
import TableVault.Proofs.Tree.Routing
import TableVault.Proofs.Tree.Transparency
import TableVault.Proofs.Vault.Orphans
import TableVault.Proofs.Vault.Waiting
import TableVault.Session
